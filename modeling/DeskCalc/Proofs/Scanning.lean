import DeskCalc.Proofs.Bytes
import DeskCalc.Proofs.Lexemes

/-!
# Scanning bytes

The scanner at work on the bytes of a line. It counts how many bytes the token in front
takes and cuts the line there. Each of its slices is checked: one of bytes has to lie within
them, and one of text has to start and stop between characters, too. None of them ever
fails, and what is found is what `scan` finds: the longest word of the kind.

Results:
* `byteLength_encode`: in front of a text a token is as long as the lexeme.
* `byteLength_of_high`: where no character starts there is none.
* `slice_append`: a slice of text is what stands between two places.
* `scanBytes_eq`: no slice fails, and the result is that of `scan`.
* `scan_longest`: what `scan` finds.
-/
namespace DeskCalc

/-- What would stop the scanner. -/
inductive Fault where
  /-- A slice that does not lie within the bytes. -/
  | outOfRange
  /-- A slice of text that starts or stops inside a character. -/
  | insideCharacter
  deriving DecidableEq, Repr

/-- The bytes from the `n`-th on, checked. -/
def sliceFrom (bytes : List UInt8) (n : Nat) : Except Fault (List UInt8) :=
  if n ≤ bytes.length then .ok (bytes.drop n) else .error .outOfRange

/-- The text between two byte offsets, checked. -/
def slice (input : String) (start stop : Nat) : Except Fault String :=
  if start ≤ stop ∧ stop ≤ input.utf8ByteSize then
    if h : (⟨start⟩ : String.Pos.Raw).IsValid input ∧ (⟨stop⟩ : String.Pos.Raw).IsValid input then
      .ok (input.extract (input.pos ⟨start⟩ h.1) (input.pos ⟨stop⟩ h.2))
    else .error .insideCharacter
  else .error .outOfRange

/-! ## Counting bytes -/

/-- Stands for the program's `count_while`. -/
def countWhile (p : UInt8 → Bool) (bytes : List UInt8) : Nat := (bytes.takeWhile p).length

/-- One if the first byte has the property.
Stands for the program's `single`. -/
def single (p : UInt8 → Bool) (bytes : List UInt8) : Nat :=
  match bytes.head? with
  | some b => if p b then 1 else 0
  | none => 0

def identifierLength (bytes : List UInt8) : Except Fault Nat :=
  if single (onByte Char.isAlpha) bytes = 0 then .ok 0
  else do
    let rest ← sliceFrom bytes 1
    return 1 + countWhile (onByte TokenKind.isNameChar) rest

/-- How long the fraction at `n` is. A point counts only if a digit follows. -/
def fractionLength (bytes : List UInt8) (n : Nat) : Except Fault Nat :=
  if bytes[n]? = some '.'.toUInt8 then do
    let rest ← sliceFrom bytes (n + 1)
    let digits := countWhile (onByte Char.isDigit) rest
    return if digits = 0 then 0 else 1 + digits
  else .ok 0

/-- Stands for the program's `number_len`. -/
def numberLength (bytes : List UInt8) : Except Fault Nat := do
  let sign := single (onByte TokenKind.addSub.isSymbol) bytes
  let unsigned ← sliceFrom bytes sign
  let whole := countWhile (onByte Char.isDigit) unsigned
  if whole = 0 then return 0
  else
    let fraction ← fractionLength bytes (sign + whole)
    return sign + whole + fraction

/-- How many bytes the token in front takes, 0 if there is none.
Stands for the cases of the program's `scan`. -/
def TokenKind.byteLength (kind : TokenKind) (bytes : List UInt8) : Except Fault Nat :=
  match kind with
  | .identifier => identifierLength bytes
  | .number => numberLength bytes
  | .space => .ok (countWhile (onByte (· = ' ')) bytes)
  | kind => .ok (single (onByte kind.isSymbol) bytes)

/-- `scan` on the bytes of the line.
Stands for the program's `scan` (SPEC_FULL §4.1) with its slices. -/
def scanBytes (kind : TokenKind) (input : String) (offset : Nat) : Except Fault (Option Match) :=
  let bytes := encode input.toList
  if offset ≤ bytes.length then do
    let length ← kind.byteLength (bytes.drop offset)
    if length = 0 then return none
    else
      let text ← slice input offset (offset + length)
      return some ⟨text, offset + length⟩
  else .ok none

/-! ## Counts in front of a text -/

section

variable {p : Char → Bool} {w cs : List Char}

theorem countWhile_encode (hp : OneByte p) (cs : List Char) :
    countWhile (onByte p) (encode cs) = (cs.takeWhile p).length := by
  rw [countWhile, takeWhile_encode hp, length_encode, utf8ByteSize_ofList fun c hc => hp c (mem_takeWhile c hc)]

theorem single_encode (hp : OneByte p) (cs : List Char) :
    single (onByte p) (encode cs) = ((cs.take 1).filter p).length := by
  cases cs with
  | nil => rfl
  | cons c cs =>
    by_cases hc : c.utf8Size = 1
    · simp only [encode_cons hc, single, List.head?_cons, onByte_toUInt8 hc]
      by_cases h : p c <;> simp [h]
    · obtain ⟨b, bytes, he, hb⟩ := exists_encode_cons hc cs
      have hpc : ¬ p c := fun h => hc (hp c h)
      simp [he, single, onByte_of_high hb, hpc]

theorem sliceFrom_encode (hw : ∀ c ∈ w, c.utf8Size = 1) (cs : List Char) :
    sliceFrom (encode (w ++ cs)) w.length = .ok (encode cs) := by
  have hl : (encode w).length = w.length := (length_encode w).trans (utf8ByteSize_ofList hw)
  rw [sliceFrom, encode_append, if_pos (by simp [hl]), ← hl, List.drop_left]

end

/-! ## Tokens in front of bytes -/

theorem identifierLength_encode (cs : List Char) :
    identifierLength (encode cs) = .ok (TokenKind.lexeme .identifier cs).length := by
  rw [identifierLength, single_encode oneByte_isAlpha]
  cases cs with
  | nil => rfl
  | cons c cs =>
    by_cases h : c.isAlpha
    · have hrest : sliceFrom (encode (c :: cs)) 1 = .ok (encode cs) :=
        sliceFrom_encode (w := [c]) (by simpa using oneByte_isAlpha c h) cs
      simp [TokenKind.lexeme, h, hrest, countWhile_encode oneByte_isNameChar, bind, Except.bind, pure, Except.pure,
        Nat.add_comm]
    · simp [TokenKind.lexeme, h]

theorem single_sign {cs ds : List Char} {sign : Option Sign} (hs : Literal.splitSign cs = (sign, ds)) :
    single (onByte TokenKind.addSub.isSymbol) (encode cs) = (sign.map Sign.char).toList.length := by
  rw [single_encode (oneByte_isSymbol .addSub)]
  unfold Literal.splitSign at hs
  split at hs
  · cases hs; rfl
  · cases hs; rfl
  · rename_i h₁ h₂
    cases hs
    cases cs with
    | nil => rfl
    | cons c cs =>
      have h₁ : c ≠ '+' := fun e => h₁ cs (e ▸ rfl)
      have h₂ : c ≠ '-' := fun e => h₂ cs (e ▸ rfl)
      simp [TokenKind.isSymbol, h₁, h₂]

theorem fractionLength_encode {w : List Char} (hw : ∀ c ∈ w, c.utf8Size = 1) (r : List Char) :
    fractionLength (encode (w ++ r)) w.length = .ok (if (Literal.splitFraction r).1 = [] then 0
      else 1 + (Literal.splitFraction r).1.length) := by
  have hpoint := getElem?_encode hw (c := '.') (by decide) r
  by_cases hr : r.head? = some '.'
  · obtain ⟨ds, rfl⟩ : ∃ ds, r = '.' :: ds := List.head?_eq_some_iff.mp hr
    have hrest : sliceFrom (encode (w ++ '.' :: ds)) (w.length + 1) = .ok (encode ds) := by
      have hw' : ∀ c ∈ w ++ ['.'], c.utf8Size = 1 := by
        intro c hc
        rcases List.mem_append.mp hc with hc | hc
        · exact hw c hc
        · rw [List.mem_singleton.mp hc]; decide
      simpa using sliceFrom_encode hw' ds
    rw [fractionLength, if_pos (hpoint.mpr rfl), hrest]
    simp only [bind, Except.bind, pure, Except.pure, countWhile_encode oneByte_isDigit, Literal.splitFraction,
      List.length_eq_zero_iff]
    split <;> rfl
  · have hs : (Literal.splitFraction r).1 = [] := by
      unfold Literal.splitFraction
      split
      · exact absurd rfl hr
      · rfl
    rw [fractionLength, if_neg (mt hpoint.mp hr), if_pos hs]

theorem numberLength_encode (cs : List Char) :
    numberLength (encode cs) = .ok (TokenKind.lexeme .number cs).length := by
  obtain ⟨sign, ds, hs⟩ : ∃ sign ds, Literal.splitSign cs = (sign, ds) := ⟨_, _, rfl⟩
  have hcs : (sign.map Sign.char).toList ++ ds = cs := by simpa [hs] using Literal.splitSign_eq cs
  have hsign : ∀ c ∈ (sign.map Sign.char).toList, c.utf8Size = 1 := by
    intro c hc
    obtain ⟨a, -, rfl⟩ : ∃ a, sign = some a ∧ a.char = c := by simpa using hc
    cases a <;> decide
  have hunsigned : sliceFrom (encode cs) (sign.map Sign.char).toList.length = .ok (encode ds) :=
    hcs ▸ sliceFrom_encode hsign ds
  have hfraction := fractionLength_encode (w := (sign.map Sign.char).toList ++ ds.takeWhile Char.isDigit)
    (fun c hc => (List.mem_append.mp hc).elim (hsign c) fun h => oneByte_isDigit c (mem_takeWhile c h))
    (ds.dropWhile Char.isDigit)
  rw [List.append_assoc, List.takeWhile_append_dropWhile, hcs, List.length_append] at hfraction
  rw [TokenKind.length_lexeme_number hs]
  simp only [numberLength, single_sign hs, hunsigned, countWhile_encode oneByte_isDigit, hfraction, bind, Except.bind,
    List.length_eq_zero_iff]
  split <;> rfl

/-- In front of a text a token takes as many bytes as the lexeme has characters. -/
theorem byteLength_encode (kind : TokenKind) (cs : List Char) :
    kind.byteLength (encode cs) = .ok (kind.lexeme cs).length := by
  have hspace : OneByte (· = ' ') := fun c h => by rw [of_decide_eq_true h]; decide
  cases kind with
  | identifier => exact identifierLength_encode cs
  | number => exact numberLength_encode cs
  | space => exact congrArg Except.ok (countWhile_encode hspace cs)
  | assign | addSub | mulDiv | exponent | leftParen | rightParen =>
    exact congrArg Except.ok (single_encode (oneByte_isSymbol _) cs)

/-- No token starts with a byte from 128 on. -/
theorem byteLength_of_high {b : UInt8} (hb : 128 ≤ b) (kind : TokenKind) (bytes : List UInt8) :
    kind.byteLength (b :: bytes) = .ok 0 := by
  have hsingle (p : Char → Bool) : single (onByte p) (b :: bytes) = 0 := by simp [single, onByte_of_high hb]
  have hcount (p : Char → Bool) : countWhile (onByte p) (b :: bytes) = 0 := by simp [countWhile, onByte_of_high hb]
  cases kind with
  | identifier => simp [TokenKind.byteLength, identifierLength, hsingle]
  | number =>
    simp [TokenKind.byteLength, numberLength, hsingle, sliceFrom, hcount, bind, Except.bind, pure, Except.pure]
  | space => simp [TokenKind.byteLength, hcount]
  | assign | addSub | mulDiv | exponent | leftParen | rightParen => simp [TokenKind.byteLength, hsingle]

/-! ## Slices of text -/

/-- The text between two places is what stands there. -/
theorem slice_append (before w after : List Char) :
    slice (.ofList (before ++ (w ++ after))) (String.ofList before).utf8ByteSize
      ((String.ofList before).utf8ByteSize + (String.ofList w).utf8ByteSize) = .ok (.ofList w) := by
  have hstart : (⟨(String.ofList before).utf8ByteSize⟩ : String.Pos.Raw).IsValid (.ofList (before ++ (w ++ after))) :=
    isValid_iff.mpr ⟨before, w ++ after, String.toList_ofList, rfl⟩
  have hstop : (⟨(String.ofList before).utf8ByteSize + (String.ofList w).utf8ByteSize⟩ : String.Pos.Raw).IsValid
      (.ofList (before ++ (w ++ after))) :=
    isValid_iff.mpr ⟨before ++ w, after, by simp, by simp⟩
  rw [slice, if_pos ⟨Nat.le_add_right _ _, hstop.le_utf8ByteSize⟩, dif_pos ⟨hstart, hstop⟩]
  congr 1
  apply String.toByteArray_inj.mp
  simp only [String.toByteArray_extract, String.offset_pos, String.ofList_append, String.toByteArray_append,
    ← String.size_toByteArray]
  exact (ByteArray.extract_append_size_add (i := 0)).trans (ByteArray.extract_append_eq_left rfl)

/-! ## The scanner -/

section

variable {kind : TokenKind} {input : String} {offset : Nat} {before after : List Char}

/-- Between two characters the lexeme is found. -/
theorem scan_of_append (h : input.toList = before ++ after) :
    scan kind input (String.ofList before).utf8ByteSize = if kind.lexeme after = [] then none
      else some ⟨.ofList (kind.lexeme after), (String.ofList before).utf8ByteSize + (kind.lexeme after).length⟩ := by
  have hseek : Cursor.seek input (String.ofList before).utf8ByteSize =
      some ⟨(String.ofList before).utf8ByteSize, after⟩ := seek_eq_some_iff.mpr ⟨rfl, before, h, rfl⟩
  simp only [scan, hseek, Option.bind_some, Cursor.eat]
  split
  · rename_i hw
    rw [if_pos hw]
    rfl
  · rename_i hw
    rw [if_neg hw]
    rfl

/-- Elsewhere nothing is. -/
theorem scan_of_not_isValid (h : ¬ (⟨offset⟩ : String.Pos.Raw).IsValid input) : scan kind input offset = none := by
  have hseek : Cursor.seek input offset = none := by
    rw [Option.eq_none_iff_forall_ne_some]
    intro c hc
    obtain ⟨-, w, hw, hn⟩ := seek_eq_some_iff.mp hc
    exact h (isValid_iff.mpr ⟨w, c.rest, hw, hn⟩)
  rw [scan, hseek]
  rfl

/-- What is found is the lexeme at a place between two characters. -/
theorem exists_of_scan_eq_some {m : Match} (h : scan kind input offset = some m) :
    ∃ before after, input.toList = before ++ after ∧ (String.ofList before).utf8ByteSize = offset ∧
      kind.lexeme after ≠ [] ∧ m = ⟨.ofList (kind.lexeme after), offset + (kind.lexeme after).length⟩ := by
  by_cases hv : (⟨offset⟩ : String.Pos.Raw).IsValid input
  · obtain ⟨before, after, hi, rfl⟩ := isValid_iff.mp hv
    rw [scan_of_append hi] at h
    split at h
    · cases h
    · rename_i hw
      exact ⟨before, after, hi, rfl, hw, (Option.some.inj h).symm⟩
  · rw [scan_of_not_isValid hv] at h
    cases h

theorem bytes_of_append (h : input.toList = before ++ after) :
    (String.ofList before).utf8ByteSize ≤ (encode input.toList).length ∧
    (encode input.toList).drop (String.ofList before).utf8ByteSize = encode after := by
  rw [h, encode_append, ← length_encode, List.drop_left, List.length_append]
  exact ⟨Nat.le_add_right _ _, rfl⟩

/-- Lexemes are as long in bytes. -/
theorem utf8ByteSize_lexeme (hw : kind.lexeme after ≠ []) :
    (String.ofList (kind.lexeme after)).utf8ByteSize = (kind.lexeme after).length :=
  utf8ByteSize_ofList (TokenKind.word_lexeme hw).utf8Size

/-- The text between the places in front of a lexeme and behind it. -/
theorem slice_lexeme (h : input.toList = before ++ after) (hw : kind.lexeme after ≠ []) :
    slice input (String.ofList before).utf8ByteSize
      ((String.ofList before).utf8ByteSize + (kind.lexeme after).length) = .ok (.ofList (kind.lexeme after)) := by
  have hs := slice_append before (kind.lexeme after) (after.drop (kind.lexeme after).length)
  rwa [TokenKind.lexeme_append_drop, ← h, String.ofList_toList, utf8ByteSize_lexeme hw] at hs

end

/-- The scanner of bytes takes no wrong slice, and it finds what `scan` does. -/
theorem scanBytes_eq (kind : TokenKind) (input : String) (offset : Nat) :
    scanBytes kind input offset = .ok (scan kind input offset) := by
  by_cases hv : (⟨offset⟩ : String.Pos.Raw).IsValid input
  · obtain ⟨before, after, hi, rfl⟩ := isValid_iff.mp hv
    obtain ⟨hle, hdrop⟩ := bytes_of_append hi
    simp only [scanBytes, hle, if_true, hdrop, byteLength_encode, scan_of_append hi, bind, Except.bind,
      List.length_eq_zero_iff]
    by_cases hw : kind.lexeme after = []
    · rw [if_pos hw, if_pos hw]
      rfl
    · rw [if_neg hw, if_neg hw, slice_lexeme hi hw]
      rfl
  · rw [scan_of_not_isValid hv]
    by_cases hn : offset ≤ (encode input.toList).length
    · obtain ⟨b, bytes, hdrop, hb⟩ := exists_high_of_not_isValid hv hn
      simp [scanBytes, hn, hdrop, byteLength_of_high hb, bind, Except.bind, pure, Except.pure]
    · simp [scanBytes, hn]

/-! ## The longest word -/

/-- A word of the kind stands in front of the bytes, and no longer one does. -/
structure TokenKind.Longest (kind : TokenKind) (bytes : List UInt8) (w : List Char) : Prop where
  word : kind.Word w
  front : encode w <+: bytes
  longest : ∀ v, kind.Word v → encode v <+: bytes → (encode v).length ≤ (encode w).length

namespace TokenKind

variable {kind : TokenKind} {w cs : List Char}

theorem Word.length_encode (h : kind.Word w) : (encode w).length = w.length :=
  (DeskCalc.length_encode w).trans (utf8ByteSize_ofList h.utf8Size)

theorem longest_lexeme (h : kind.lexeme cs ≠ []) : kind.Longest (encode cs) (kind.lexeme cs) := by
  refine ⟨word_lexeme h, ⟨encode (cs.drop (kind.lexeme cs).length), ?_⟩, fun v hv hfront => ?_⟩
  · rw [← encode_append, lexeme_append_drop]
  · rw [hv.length_encode, (word_lexeme h).length_encode]
    exact hv.length_le_lexeme (isPrefix_of_encode hfront)

theorem lexeme_ne_nil_iff : kind.lexeme cs ≠ [] ↔ ∃ w, w ≠ [] ∧ kind.Word w ∧ encode w <+: encode cs := by
  constructor
  · intro h
    exact ⟨_, h, word_lexeme h, (longest_lexeme h).front⟩
  · rintro ⟨w, hne, hw, hfront⟩ h
    have hle := hw.length_le_lexeme (isPrefix_of_encode hfront)
    rw [h] at hle
    exact hne (List.eq_nil_of_length_eq_zero (Nat.le_zero.mp hle))

end TokenKind

/-- At every offset of every line the scanner of bytes comes to an end without a wrong
slice. Something is found just if the offset is a place between characters and a word of
the kind stands there. It is the longest one then, it is the text up to the place behind
it, and that is between characters, too. -/
theorem scan_longest (kind : TokenKind) (input : String) (offset : Nat) :
    scanBytes kind input offset = .ok (scan kind input offset) ∧
    ((scan kind input offset).isSome ↔ (⟨offset⟩ : String.Pos.Raw).IsValid input ∧
      ∃ w, w ≠ [] ∧ kind.Word w ∧ encode w <+: (encode input.toList).drop offset) ∧
    ∀ m, scan kind input offset = some m →
      kind.Longest ((encode input.toList).drop offset) m.text.toList ∧
      m.stop = offset + m.text.utf8ByteSize ∧ slice input offset m.stop = .ok m.text ∧
      (⟨m.stop⟩ : String.Pos.Raw).IsValid input := by
  refine ⟨scanBytes_eq kind input offset, ?_, fun m hm => ?_⟩
  · by_cases hv : (⟨offset⟩ : String.Pos.Raw).IsValid input
    · obtain ⟨before, after, hi, rfl⟩ := isValid_iff.mp hv
      rw [(bytes_of_append hi).2, ← TokenKind.lexeme_ne_nil_iff, scan_of_append hi]
      by_cases hw : kind.lexeme after = [] <;> simp [hv, hw]
    · simp [scan_of_not_isValid hv, hv]
  · obtain ⟨before, after, hi, rfl, hw, rfl⟩ := exists_of_scan_eq_some hm
    refine ⟨?_, by rw [utf8ByteSize_lexeme hw], slice_lexeme hi hw, isValid_iff.mpr ?_⟩
    · rw [(bytes_of_append hi).2, String.toList_ofList]
      exact TokenKind.longest_lexeme hw
    · refine ⟨before ++ kind.lexeme after, after.drop (kind.lexeme after).length, ?_, ?_⟩
      · rw [List.append_assoc, TokenKind.lexeme_append_drop, hi]
      · rw [String.ofList_append, String.utf8ByteSize_append, utf8ByteSize_lexeme hw]

/-- Behind a character of two bytes a sign and a fraction are taken, a second point is not,
and inside that character there is nothing. -/
theorem scan_longest_of_accented :
    scanBytes .number "é-3.25.x" 2 = .ok (some ⟨"-3.25", 7⟩) ∧ slice "é-3.25.x" 2 7 = .ok "-3.25" ∧
    TokenKind.Longest .number (encode "-3.25.x".toList) "-3.25".toList ∧
    scanBytes .identifier "é-3.25.x" 1 = .ok none ∧ scanBytes .space "é-3.25.x" 10 = .ok none := by
  have hfound : scan .number "é-3.25.x" 2 = some ⟨"-3.25", 7⟩ := by decide
  obtain ⟨hscan, -, hlongest⟩ := scan_longest .number "é-3.25.x" 2
  obtain ⟨hword, -, hslice, -⟩ := hlongest _ hfound
  refine ⟨hscan.trans (congrArg _ hfound), hslice, hword, (scan_longest .identifier "é-3.25.x" 1).1.trans ?_,
    (scan_longest .space "é-3.25.x" 10).1.trans ?_⟩
  · decide
  · decide

end DeskCalc
