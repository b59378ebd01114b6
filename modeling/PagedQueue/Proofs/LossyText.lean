import PagedQueue.Text.Lossy
import Mathlib.Tactic.SplitIfs

/-!
# Text comes back from its bytes

Text is shown out of bytes that need not be text. Bytes that do encode a text are shown as that
text: the first character of what encodes a character and more is that character, and all its bytes
are taken (`firstCharacter_encode`), so character by character the text comes back
(`ofBytesLossy_toUTF8`).
-/

namespace PagedQueue.Text

variable {n v : Nat} {rest : List UInt8}

/-! ## Single bytes -/

theorem toNat_byte (h : n < 256) : (UInt8.ofNat n).toNat = n := UInt8.toNat_ofNat_of_lt' h

/-- The length of a sequence, by the number that its first byte is. -/
theorem sequenceLength_byte (h : n < 256) : sequenceLength (UInt8.ofNat n)
    = if n < 0x80 then 1 else if 0xC2 ≤ n ∧ n ≤ 0xDF then 2 else if 0xE0 ≤ n ∧ n ≤ 0xEF then 3
      else if 0xF0 ≤ n ∧ n ≤ 0xF4 then 4 else 0 := by
  simp only [sequenceLength, UInt8.lt_iff_toNat_lt, UInt8.le_iff_toNat_le, toNat_byte h]
  rfl

/-- Six bits in a byte that continues a sequence. -/
theorem continues_byte (h : n < 64) : continues (UInt8.ofNat (n + 128)) = true := by
  have hbyte := toNat_byte (n := n + 128) (by omega)
  simp only [continues, Bool.and_eq_true, decide_eq_true_eq, UInt8.le_iff_toNat_le, hbyte]
  exact ⟨Nat.le_add_left _ _, Nat.add_le_add_right (Nat.le_of_lt_succ h) 128⟩

theorem sixBits_byte (h : n < 64) : sixBits (UInt8.ofNat (n + 128)) = n := by
  rw [sixBits, toNat_byte (by omega)]
  omega

/-- The second byte is in range if it does not make up for what the first one leaves out. -/
theorem follows_byte {k : Nat} (hk : k < 256) (h : n < 64)
    (hlow : (k = 0xE0 → 32 ≤ n) ∧ (k = 0xF0 → 16 ≤ n))
    (hhigh : (k = 0xED → n < 32) ∧ (k = 0xF4 → n < 16)) :
    ((secondByteRange (UInt8.ofNat k)).1 ≤ UInt8.ofNat (n + 128)
      && UInt8.ofNat (n + 128) ≤ (secondByteRange (UInt8.ofNat k)).2) = true := by
  have hbyte := toNat_byte (n := n + 128) (by omega)
  have heq (byte : UInt8) : UInt8.ofNat k = byte ↔ k = byte.toNat := by
    rw [← UInt8.toNat_inj, toNat_byte hk]
  simp only [Bool.and_eq_true, decide_eq_true_eq, UInt8.le_iff_toNat_le, hbyte,
    secondByteRange, heq]
  have hnum : (0xE0 : UInt8).toNat = 0xE0 ∧ (0xED : UInt8).toNat = 0xED
      ∧ (0xF0 : UInt8).toNat = 0xF0 ∧ (0xF4 : UInt8).toNat = 0xF4 := ⟨rfl, rfl, rfl, rfl⟩
  rw [hnum.1, hnum.2.1, hnum.2.2.1, hnum.2.2.2]
  split_ifs <;> simp <;> omega

/-! ## Characters -/

variable {first second third fourth : UInt8}

theorem firstCharacter_of_one (h : sequenceLength first = 1) :
    firstCharacter first rest = (Char.ofNat first.toNat, 0) := by
  simp only [firstCharacter, h]

theorem firstCharacter_of_two (h : sequenceLength first = 2) (hsecond : continues second = true) :
    firstCharacter first (second :: rest)
      = (Char.ofNat (first.toNat % 32 * 64 + sixBits second), 1) := by
  simp only [firstCharacter, h, hsecond, if_true]

theorem firstCharacter_of_three (h : sequenceLength first = 3)
    (hsecond : ((secondByteRange first).1 ≤ second && second ≤ (secondByteRange first).2) = true)
    (hthird : continues third = true) : firstCharacter first (second :: third :: rest)
      = (Char.ofNat ((first.toNat % 16 * 64 + sixBits second) * 64 + sixBits third), 2) := by
  simp only [firstCharacter, h, hsecond, hthird, Bool.not_true, Bool.false_eq_true, if_false,
    if_true]

theorem firstCharacter_of_four (h : sequenceLength first = 4)
    (hsecond : ((secondByteRange first).1 ≤ second && second ≤ (secondByteRange first).2) = true)
    (hthird : continues third = true) (hfourth : continues fourth = true) :
    firstCharacter first (second :: third :: fourth :: rest)
      = (Char.ofNat (((first.toNat % 8 * 64 + sixBits second) * 64 + sixBits third) * 64
        + sixBits fourth), 3) := by
  simp only [firstCharacter, h, hsecond, hthird, hfourth, Bool.not_true, Bool.false_eq_true,
    if_false,
    if_true]

/-- The first character of what encodes a character and more is that character, and the bytes that
encode it are taken. -/
theorem firstCharacter_encode (c : Char) (rest : List UInt8) :
    ∃ first more, String.utf8EncodeChar c = first :: more
      ∧ firstCharacter first (more ++ rest) = (c, more.length) := by
  have hvalid : c.val.toNat < 0xD800 ∨ 0xDFFF < c.val.toNat ∧ c.val.toNat < 0x110000 := c.valid
  have hback : Char.ofNat c.val.toNat = c := Char.ofNat_toNat c
  generalize hv : c.val.toNat = v at hvalid hback
  have hbits (n : Nat) : n % 64 < 64 := Nat.mod_lt n (by decide)
  unfold String.utf8EncodeChar
  simp only [hv]
  split_ifs with h1 h2 h3 <;> refine ⟨_, _, rfl, ?_⟩
  · have hlength := sequenceLength_byte (n := v) (by omega)
    rw [if_pos (by omega)] at hlength
    rw [firstCharacter_of_one hlength, toNat_byte (by omega), hback]
    rfl
  · have hlength := sequenceLength_byte (n := v / 64 % 32 + 192) (by omega)
    rw [if_neg (by omega), if_pos (by omega)] at hlength
    have hsum : (v / 64 % 32 + 192) % 32 * 64 + v % 64 = v := by omega
    refine (firstCharacter_of_two hlength (continues_byte (hbits v))).trans ?_
    rw [sixBits_byte (hbits v), toNat_byte (by omega), hsum, hback]
    rfl
  · have hlength := sequenceLength_byte (n := v / 4096 % 16 + 224) (by omega)
    rw [if_neg (by omega), if_neg (by omega), if_pos (by omega)] at hlength
    have hfollows := follows_byte (k := v / 4096 % 16 + 224) (by omega) (hbits (v / 64))
      (by omega) (by omega)
    have hsum : ((v / 4096 % 16 + 224) % 16 * 64 + v / 64 % 64) * 64 + v % 64 = v := by omega
    refine (firstCharacter_of_three hlength hfollows (continues_byte (hbits v))).trans ?_
    rw [sixBits_byte (hbits _), sixBits_byte (hbits v), toNat_byte (by omega), hsum, hback]
    rfl
  · have hlength := sequenceLength_byte (n := v / 262144 % 8 + 240) (by omega)
    rw [if_neg (by omega), if_neg (by omega), if_neg (by omega), if_pos (by omega)] at hlength
    have hfollows := follows_byte (k := v / 262144 % 8 + 240) (by omega) (hbits (v / 4096))
      (by omega) (by omega)
    have hsum : (((v / 262144 % 8 + 240) % 8 * 64 + v / 4096 % 64) * 64 + v / 64 % 64) * 64 + v % 64
        = v := by omega
    refine (firstCharacter_of_four hlength hfollows (continues_byte (hbits _))
      (continues_byte (hbits v))).trans ?_
    rw [sixBits_byte (hbits _), sixBits_byte (hbits _), sixBits_byte (hbits v),
      toNat_byte (by omega), hsum, hback]
    rfl

/-- The characters that were encoded come back. -/
theorem lossyCharacters_encode (cs : List Char) :
    lossyCharacters (cs.flatMap String.utf8EncodeChar) = cs := by
  induction cs with
  | nil => rw [List.flatMap_nil, lossyCharacters]
  | cons c cs ih =>
    obtain ⟨first, more, hencode, hfirst⟩ :=
      firstCharacter_encode c (cs.flatMap String.utf8EncodeChar)
    rw [List.flatMap_cons, hencode, List.cons_append, lossyCharacters, hfirst]
    show c :: lossyCharacters ((more ++ cs.flatMap String.utf8EncodeChar).drop more.length)
      = c :: cs
    rw [List.drop_left, ih]

/-- A text is shown as itself out of its bytes. -/
theorem ofBytesLossy_toUTF8 (text : String) : ofBytesLossy text.toUTF8.data.toList = text := by
  have hbytes : text.toUTF8.data.toList = text.toList.flatMap String.utf8EncodeChar := by
    have hlist : text.toUTF8 = (String.ofList text.toList).toByteArray := by
      rw [String.ofList_toList]; rfl
    rw [hlist, String.toByteArray_ofList, List.utf8Encode, List.toList_data_toByteArray]
  rw [ofBytesLossy, hbytes, lossyCharacters_encode, String.ofList_toList]

end PagedQueue.Text
