/-!
# Words as bytes

A word is stored as its bytes, most significant first. `bigEndian` writes a number in a given number
of bytes, reduced to what fits; `ofBigEndian` reads any number of bytes back. They undo each other
(`ofBigEndian_bigEndian`, `bigEndian_ofBigEndian`), and the signed and unsigned words below inherit
this.
-/

namespace PagedQueue

/-- How many numbers can be written in this many bytes. -/
def wordBound : Nat → Nat
  | 0 => 1
  | width + 1 => wordBound width * 256

/-- The lowest `width` bytes of `n`, most significant first. -/
def bigEndian : (width n : Nat) → List UInt8
  | 0, _ => []
  | width + 1, n => bigEndian width (n / 256) ++ [UInt8.ofNat n]

/-- The number whose digits to the base 256 are these bytes, most significant first. -/
def ofBigEndian (bytes : List UInt8) : Nat :=
  bytes.foldl (fun n byte => n * 256 + byte.toNat) 0

@[simp]
theorem length_bigEndian (width n : Nat) : (bigEndian width n).length = width := by
  induction width generalizing n with
  | zero => rfl
  | succ width ih => simp [bigEndian, ih]

/-- The last byte is the least significant digit. -/
theorem ofBigEndian_append_singleton (bytes : List UInt8) (byte : UInt8) :
    ofBigEndian (bytes ++ [byte]) = ofBigEndian bytes * 256 + byte.toNat := by
  simp [ofBigEndian]

/-- Reading back what was written gives the number, reduced to what fits. -/
theorem ofBigEndian_bigEndian (width n : Nat) :
    ofBigEndian (bigEndian width n) = n % wordBound width := by
  induction width generalizing n with
  | zero => simp [bigEndian, ofBigEndian, wordBound, Nat.mod_one]
  | succ width ih =>
    rw [bigEndian, ofBigEndian_append_singleton, ih, wordBound, Nat.mul_comm (wordBound width) 256,
      Nat.mod_mul, UInt8.toNat_ofNat']
    omega

private theorem bigEndian_foldl (bytes : List UInt8) (width start : Nat) :
    bigEndian (width + bytes.length) (bytes.foldl (fun n byte => n * 256 + byte.toNat) start)
      = bigEndian width start ++ bytes := by
  induction bytes generalizing width start with
  | nil => simp
  | cons byte bytes ih =>
    have hbyte := byte.toNat_lt
    have hdigit : UInt8.ofNat (start * 256 + byte.toNat) = byte := by
      apply UInt8.toNat_inj.mp
      rw [UInt8.toNat_ofNat']
      omega
    have hrest : (start * 256 + byte.toNat) / 256 = start := by omega
    rw [List.foldl_cons, List.length_cons, Nat.add_comm bytes.length, ← Nat.add_assoc, ih,
      bigEndian, hdigit, hrest, List.append_assoc, List.singleton_append]

/-- Writing what was read gives the bytes back, when as many are written as were read. -/
theorem bigEndian_ofBigEndian (bytes : List UInt8) :
    bigEndian bytes.length (ofBigEndian bytes) = bytes := by
  have h := bigEndian_foldl bytes 0 0
  rwa [Nat.zero_add, bigEndian, List.nil_append] at h

theorem wordBound_pos (width : Nat) : 0 < wordBound width := by
  induction width with
  | zero => decide
  | succ width ih => exact Nat.mul_pos ih (by decide)

/-- What is read from some bytes can be written in as many. -/
theorem ofBigEndian_lt (bytes : List UInt8) : ofBigEndian bytes < wordBound bytes.length := by
  have h := ofBigEndian_bigEndian bytes.length (ofBigEndian bytes)
  rw [bigEndian_ofBigEndian] at h
  rw [h]
  exact Nat.mod_lt _ (wordBound_pos _)

/-! ## Signed and unsigned words -/

/-- The eight bytes of an unsigned word. -/
def encodeUInt64 (word : UInt64) : List UInt8 := bigEndian 8 word.toNat

/-- The eight bytes of a signed word. -/
def encodeInt64 (word : Int64) : List UInt8 := encodeUInt64 word.toUInt64

/-- The four bytes of a signed word. -/
def encodeInt32 (word : Int32) : List UInt8 := bigEndian 4 word.toUInt32.toNat

/-- The unsigned word that these bytes hold. -/
def decodeUInt64 (bytes : List UInt8) : UInt64 := UInt64.ofNat (ofBigEndian bytes)

/-- The signed word that these bytes hold. -/
def decodeInt64 (bytes : List UInt8) : Int64 := (decodeUInt64 bytes).toInt64

/-- The signed word that these bytes hold. -/
def decodeInt32 (bytes : List UInt8) : Int32 := (UInt32.ofNat (ofBigEndian bytes)).toInt32

@[simp]
theorem length_encodeUInt64 (word : UInt64) : (encodeUInt64 word).length = 8 :=
  length_bigEndian 8 _

@[simp]
theorem length_encodeInt64 (word : Int64) : (encodeInt64 word).length = 8 :=
  length_bigEndian 8 _

@[simp]
theorem length_encodeInt32 (word : Int32) : (encodeInt32 word).length = 4 :=
  length_bigEndian 4 _

@[simp]
theorem decodeUInt64_encodeUInt64 (word : UInt64) : decodeUInt64 (encodeUInt64 word) = word := by
  rw [decodeUInt64, encodeUInt64, ofBigEndian_bigEndian,
    Nat.mod_eq_of_lt (show _ < wordBound 8 from word.toNat_lt)]
  exact UInt64.ofNat_toNat

@[simp]
theorem decodeInt64_encodeInt64 (word : Int64) : decodeInt64 (encodeInt64 word) = word := by
  rw [decodeInt64, encodeInt64, decodeUInt64_encodeUInt64]
  rfl

@[simp]
theorem decodeInt32_encodeInt32 (word : Int32) : decodeInt32 (encodeInt32 word) = word := by
  rw [decodeInt32, encodeInt32, ofBigEndian_bigEndian,
    Nat.mod_eq_of_lt (show _ < wordBound 4 from word.toUInt32.toNat_lt), UInt32.ofNat_toNat]
  rfl

theorem encodeUInt64_decodeUInt64 {bytes : List UInt8} (h : bytes.length = 8) :
    encodeUInt64 (decodeUInt64 bytes) = bytes := by
  have hlt : ofBigEndian bytes < UInt64.size := by
    have hbound := ofBigEndian_lt bytes
    rwa [h] at hbound
  rw [encodeUInt64, decodeUInt64, UInt64.toNat_ofNat_of_lt' hlt, ← h, bigEndian_ofBigEndian]

theorem encodeInt64_decodeInt64 {bytes : List UInt8} (h : bytes.length = 8) :
    encodeInt64 (decodeInt64 bytes) = bytes := encodeUInt64_decodeUInt64 h

theorem encodeInt32_decodeInt32 {bytes : List UInt8} (h : bytes.length = 4) :
    encodeInt32 (decodeInt32 bytes) = bytes := by
  have hlt : ofBigEndian bytes < UInt32.size := by
    have hbound := ofBigEndian_lt bytes
    rwa [h] at hbound
  rw [encodeInt32, decodeInt32]
  show bigEndian 4 (UInt32.ofNat (ofBigEndian bytes)).toNat = bytes
  rw [UInt32.toNat_ofNat_of_lt' hlt, ← h, bigEndian_ofBigEndian]

end PagedQueue
