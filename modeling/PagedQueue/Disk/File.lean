/-!
# Files

The contents of a file and the time of its last modification. A file reads as if zeros went on after
its end (`byte`, `window`), which is what a mapping that is longer than its file shows. Overwriting
stays within the file: bytes that would fall behind its end are lost.

Which bytes an operation leaves is told byte by byte: `byte_overwrite` for the range overwritten and
all around it, and `byte_extend`, by which an extended file reads as it did before.
-/

namespace PagedQueue

/-- The contents of a file. -/
structure File where
  bytes : ByteArray
  /-- When the file was last modified, in milliseconds. -/
  modified : Int

namespace File

/-- A run of zero bytes. -/
def zeros (size : Nat) : ByteArray := ⟨Array.replicate size 0⟩

/-- Puts bytes in the place of others, as far as there are others. -/
def overwriteBytes (bytes : ByteArray) (start : Nat) : List UInt8 → ByteArray
  | [] => bytes
  | byte :: rest =>
    let bytes := if h : start < bytes.size then bytes.set start byte h else bytes
    overwriteBytes bytes (start + 1) rest

/-- Zeros up to a size, if there are fewer bytes. -/
def extendBytes (bytes : ByteArray) (size : Nat) : ByteArray :=
  if bytes.size < size then bytes ++ zeros (size - bytes.size) else bytes

/-- The number of bytes. -/
def size (f : File) : Nat := f.bytes.size

/-- The byte at an offset, zero behind the end. -/
def byte (f : File) (i : Nat) : UInt8 :=
  if h : i < f.bytes.size then f.bytes[i] else 0

/-- The bytes from an offset on. -/
def window (f : File) (start length : Nat) : List UInt8 :=
  (List.range length).map fun i => f.byte (start + i)

/-- Puts bytes in the place of others, as far as the file reaches. -/
def overwrite (f : File) (start : Nat) (content : List UInt8) (now : Int) : File :=
  ⟨overwriteBytes f.bytes start content, now⟩

/-- Adds zeros up to a size, if the file is smaller. -/
def extend (f : File) (size : Nat) (now : Int) : File := ⟨extendBytes f.bytes size, now⟩

/-! ## What the operations do to the bytes -/

@[simp]
theorem length_window (f : File) (start length : Nat) :
    (f.window start length).length = length := by
  simp [window]

theorem size_overwriteBytes (bytes : ByteArray) (start : Nat) (content : List UInt8) :
    (overwriteBytes bytes start content).size = bytes.size := by
  induction content generalizing bytes start with
  | nil => rfl
  | cons byte rest ih =>
    rw [overwriteBytes, ih]
    split
    · exact Array.size_set ..
    · rfl

/-- Overwriting keeps the size. -/
@[simp]
theorem size_overwrite (f : File) (start : Nat) (content : List UInt8) (now : Int) :
    (f.overwrite start content now).size = f.size :=
  size_overwriteBytes ..

private theorem byte_eq_getElem? (f : File) (i : Nat) : f.byte i = f.bytes.data[i]?.getD 0 := by
  unfold byte
  split
  · next h => rw [Array.getElem?_eq_getElem h]; rfl
  · next h => rw [Array.getElem?_eq_none (Nat.le_of_not_lt h)]; rfl

private theorem byte_set (f : File) (start : Nat) (h : start < f.bytes.size) (value : UInt8)
    (i : Nat) :
    byte ⟨f.bytes.set start value h, f.modified⟩ i = if start = i then value else f.byte i := by
  have hdata : (f.bytes.set start value h).data = f.bytes.data.set start value h := rfl
  rw [byte_eq_getElem?, byte_eq_getElem?, hdata, Array.getElem?_set]
  split
  · rfl
  · rfl

/-- The bytes that are overwritten are those that the file has of the range; all others stay. -/
theorem byte_overwrite (f : File) (start : Nat) (content : List UInt8) (now : Int) (i : Nat) :
    (f.overwrite start content now).byte i
      = if start ≤ i ∧ i < f.size then content.getD (i - start) (f.byte i) else f.byte i := by
  induction content generalizing f start with
  | nil => simp only [List.getD_nil, ite_self]; rfl
  | cons first rest ih =>
    by_cases h : start < f.bytes.size
    · have hstep : f.overwrite start (first :: rest) now
          = overwrite ⟨f.bytes.set start first h, f.modified⟩ (start + 1) rest now := by
        simp only [overwrite, overwriteBytes, dif_pos h]
      have hsize : (File.mk (f.bytes.set start first h) f.modified).size = f.size :=
        Array.size_set ..
      rw [hstep, ih, hsize, byte_set]
      by_cases hi : start = i
      · subst hi
        rw [if_neg (by omega), if_pos rfl, if_pos ⟨Nat.le_refl _, h⟩, Nat.sub_self]
        rfl
      · by_cases hcover : start + 1 ≤ i ∧ i < f.size
        · obtain ⟨k, rfl⟩ : ∃ k, i = start + 1 + k := ⟨i - (start + 1), by omega⟩
          have hk : start + 1 + k - start = k + 1 := by omega
          rw [if_pos hcover, if_neg hi, if_pos ⟨by omega, hcover.2⟩, hk, Nat.add_sub_cancel_left]
          rfl
        · rw [if_neg hcover, if_neg hi, if_neg (by omega)]
    · have hstep : f.overwrite start (first :: rest) now = f.overwrite (start + 1) rest now := by
        simp only [overwrite, overwriteBytes, dif_neg h]
      have hsize : f.size ≤ start := Nat.le_of_not_lt h
      rw [hstep, ih, if_neg (by omega), if_neg (by omega)]

/-- Extending makes a file as large as asked, and never smaller. -/
@[simp]
theorem size_extend (f : File) (size : Nat) (now : Int) :
    (f.extend size now).size = max f.size size := by
  simp only [File.size, extend, extendBytes]
  split
  · have hzeros : (zeros (size - f.bytes.size)).size = size - f.bytes.size := Array.size_replicate
    rw [ByteArray.size_append, hzeros]
    omega
  · omega

/-- Extending shows in no byte, as a file reads as zeros behind its end. -/
@[simp]
theorem byte_extend (f : File) (size : Nat) (now : Int) (i : Nat) :
    (f.extend size now).byte i = f.byte i := by
  rw [byte_eq_getElem?, byte_eq_getElem?]
  simp only [extend, extendBytes]
  split
  · rw [ByteArray.data_append, Array.getElem?_append]
    split
    · rfl
    · next hi =>
      rw [Array.getElem?_eq_none (Nat.le_of_not_lt hi), zeros, Array.getElem?_replicate]
      split <;> rfl
  · rfl

end File

end PagedQueue
