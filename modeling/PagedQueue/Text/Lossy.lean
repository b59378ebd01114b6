/-!
# Text out of any bytes

Bytes that are well-formed UTF-8 become the characters they encode. Every maximal piece that begins
like a character and breaks off, and every byte that cannot begin one, becomes one replacement
character.

Which second bytes may follow a first byte is the table of well-formed sequences of the Unicode
standard: it excludes overlong forms, surrogates and values beyond the last code point.
-/

namespace PagedQueue.Text

/-- The character that stands for bytes that are no text. -/
def replacement : Char := '\uFFFD'

/-- The least and the greatest byte that may follow this first byte of a longer sequence. -/
def secondByteRange (first : UInt8) : UInt8 × UInt8 :=
  if first = 0xE0 then (0xA0, 0xBF)
  else if first = 0xED then (0x80, 0x9F)
  else if first = 0xF0 then (0x90, 0xBF)
  else if first = 0xF4 then (0x80, 0x8F)
  else (0x80, 0xBF)

/-- How many bytes the sequence that this byte begins has, zero if it begins none. -/
def sequenceLength (first : UInt8) : Nat :=
  if first < 0x80 then 1
  else if 0xC2 ≤ first ∧ first ≤ 0xDF then 2
  else if 0xE0 ≤ first ∧ first ≤ 0xEF then 3
  else if 0xF0 ≤ first ∧ first ≤ 0xF4 then 4
  else 0

/-- Whether a byte continues a sequence. -/
def continues (byte : UInt8) : Bool := 0x80 ≤ byte && byte ≤ 0xBF

/-- The low six bits of a continuing byte. -/
def sixBits (byte : UInt8) : Nat := byte.toNat % 64

/-- The first character of a sequence of bytes, and how many of the bytes after the first belong to
it. -/
def firstCharacter (first : UInt8) (rest : List UInt8) : Char × Nat :=
  let follows (second : UInt8) : Bool :=
    (secondByteRange first).1 ≤ second && second ≤ (secondByteRange first).2
  match sequenceLength first, rest with
  | 1, _ => (Char.ofNat first.toNat, 0)
  | 2, second :: _ =>
    if continues second then (Char.ofNat (first.toNat % 32 * 64 + sixBits second), 1)
    else (replacement, 0)
  | 3, second :: rest =>
    if !follows second then (replacement, 0)
    else match rest with
      | third :: _ =>
        if continues third then
          (Char.ofNat ((first.toNat % 16 * 64 + sixBits second) * 64 + sixBits third), 2)
        else (replacement, 1)
      | [] => (replacement, 1)
  | 4, second :: rest =>
    if !follows second then (replacement, 0)
    else match rest with
      | third :: rest =>
        if !continues third then (replacement, 1)
        else match rest with
          | fourth :: _ =>
            if continues fourth then
              (Char.ofNat (((first.toNat % 8 * 64 + sixBits second) * 64 + sixBits third) * 64
                + sixBits fourth), 3)
            else (replacement, 2)
          | [] => (replacement, 2)
      | [] => (replacement, 1)
  | _, _ => (replacement, 0)

/-- The characters of any bytes. -/
def lossyCharacters : List UInt8 → List Char
  | [] => []
  | first :: rest =>
    let (c, taken) := firstCharacter first rest
    c :: lossyCharacters (rest.drop taken)
  termination_by bytes => bytes.length
  decreasing_by simp only [List.length_drop, List.length_cons]; omega

/-- The text of any bytes. -/
def ofBytesLossy (bytes : List UInt8) : String :=
  String.ofList (lossyCharacters bytes)

end PagedQueue.Text
