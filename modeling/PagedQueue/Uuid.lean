import PagedQueue.Text.Hexadecimal

/-!
# UUIDs

A UUID is a number of 128 bits. It is written as 32 hexadecimal digits in groups of 8, 4, 4, 4 and
12, and stored as two words of 64 bits, the high one first.
-/

namespace PagedQueue

/-- A number of 128 bits that identifies a message. -/
structure Uuid where
  bits : BitVec 128
  deriving DecidableEq

namespace Uuid

instance : Inhabited Uuid := ⟨⟨0⟩⟩

/-- UUIDs are ordered as numbers. -/
instance : Ord Uuid := ⟨fun u v => compare u.bits v.bits⟩

instance : Std.TransOrd Uuid where
  eq_swap {u v} := (Std.OrientedCmp.eq_swap : compare u.bits v.bits = (compare v.bits u.bits).swap)
  isLE_trans {u _ w} huv hvw :=
    (Std.TransCmp.isLE_trans huv hvw : (compare u.bits w.bits).isLE)

instance : Std.LawfulEqOrd Uuid where
  compare_self {u} := (Std.ReflCmp.compare_self : compare u.bits u.bits = .eq)
  eq_of_compare {u v} h :=
    have hbits : compare u.bits v.bits = .eq := h
    congrArg Uuid.mk (Std.LawfulEqCmp.eq_of_compare hbits)

/-- The UUID whose bits are all zero. It marks record slots that were never written. -/
def nil : Uuid := ⟨0⟩

/-- Whether all bits are zero. -/
def isNil (u : Uuid) : Bool := u.bits == 0

/-- The upper 64 bits. -/
def high (u : Uuid) : UInt64 := ⟨(u.bits >>> 64).setWidth 64⟩

/-- The lower 64 bits. -/
def low (u : Uuid) : UInt64 := ⟨u.bits.setWidth 64⟩

/-- Joins two halves. -/
def ofHalves (high low : UInt64) : Uuid :=
  ⟨high.toBitVec.setWidth 128 <<< 64 ||| low.toBitVec.setWidth 128⟩

/-- The halves of a UUID make it up again. -/
@[simp]
theorem ofHalves_high_low (u : Uuid) : ofHalves u.high u.low = u := by
  obtain ⟨bits⟩ := u
  simp only [ofHalves, high, low, Uuid.mk.injEq]
  ext i hi
  simp only [BitVec.getElem_or, BitVec.getElem_shiftLeft, BitVec.getElem_setWidth,
    BitVec.getLsbD_setWidth, BitVec.getLsbD_ushiftRight]
  by_cases h : i < 64
  · simp [h, BitVec.getLsbD_eq_getElem hi]
  · have hlt : i - 64 < 64 := by omega
    have hadd : 64 + (i - 64) = i := by omega
    simp [h, hlt, hadd, BitVec.getLsbD_eq_getElem hi]

/-- The UUID with these random bits. The four bits of the version and the two bits of the variant
are set, so that it counts as a random UUID. -/
def ofRandom (n : Nat) : Uuid :=
  let version : BitVec 128 := 0xF <<< 76
  let variant : BitVec 128 := 0x3 <<< 62
  ⟨(BitVec.ofNat 128 n &&& ~~~version &&& ~~~variant) ||| (0x4 <<< 76) ||| (0x2 <<< 62)⟩

/-- The written form: lower-case digits in groups of 8, 4, 4, 4 and 12. -/
def render (u : Uuid) : String :=
  let digits := Hexadecimal.write 32 u.bits.toNat
  let group (start count : Nat) : String := String.ofList ((digits.drop start).take count)
  "-".intercalate [group 0 8, group 8 4, group 12 4, group 16 4, group 20 12]

/-- Reads 32 digits without hyphens. -/
def ofDigits? (text : List Char) : Option Uuid :=
  if text.length = 32 then (Hexadecimal.read? text).map fun n => ⟨BitVec.ofNat 128 n⟩ else none

/-- Reads 32 digits with a hyphen after the 8th, 12th, 16th and 20th. -/
def ofHyphenated? (text : List Char) : Option Uuid :=
  let hyphens := [8, 13, 18, 23]
  if text.length = 36 ∧ hyphens.all (fun i => text[i]? == some '-') then
    ofDigits? ((text.zipIdx.filter fun (_, i) => !hyphens.contains i).map Prod.fst)
  else none

/-- What stands in front of a UUID that is written as a name. -/
def urnHead : List Char := "urn:uuid:".toList

/-- Reads a UUID: plain digits, or the hyphenated form alone, in braces or after `urn:uuid:`.
Letters may be of either case everywhere. -/
def read? (text : String) : Option Uuid :=
  let chars := text.toList
  if (chars.take urnHead.length).map Char.toLower = urnHead then
    ofHyphenated? (chars.drop urnHead.length)
  else match chars with
    | '{' :: rest => if rest.getLast? = some '}' then ofHyphenated? rest.dropLast else none
    | _ => (ofDigits? chars).orElse fun _ => ofHyphenated? chars

end Uuid

end PagedQueue
