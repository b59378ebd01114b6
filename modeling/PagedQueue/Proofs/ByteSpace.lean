import Mathlib.Data.List.GetD
import PagedQueue.Word

/-!
# Spaces of bytes

A space of bytes has a byte at every offset, and begins with zeros everywhere (`blank`). Bytes are
read from a range and written over one. What is written is read back (`read_write`), all around it
stays (`read_write_of_disjoint`), and both reading and writing a range can be done in two parts
(`read_add`, `write_append`).
-/

namespace PagedQueue

/-- A byte at every offset. -/
abbrev ByteSpace := Nat → UInt8

namespace ByteSpace

/-- Zeros everywhere. -/
def blank : ByteSpace := fun _ => 0

/-- The bytes of a range. -/
def read (b : ByteSpace) (start length : Nat) : List UInt8 :=
  (List.range length).map fun i => b (start + i)

/-- The space with other bytes in a range. -/
def write (b : ByteSpace) (start : Nat) (bytes : List UInt8) : ByteSpace := fun o =>
  if start ≤ o ∧ o < start + bytes.length then bytes.getD (o - start) 0 else b o

variable {b b' : ByteSpace} {start length : Nat} {bytes : List UInt8}

@[simp]
theorem length_read (b : ByteSpace) (start length : Nat) :
    (b.read start length).length = length := by
  simp [read]

theorem read_getElem {i : Nat} (h : i < (b.read start length).length) :
    (b.read start length)[i] = b (start + i) := by
  simp [read]

/-- A range is read in two parts. -/
theorem read_add (b : ByteSpace) (start length more : Nat) :
    b.read start (length + more) = b.read start length ++ b.read (start + length) more := by
  simp only [read, List.range_add, List.map_append, List.map_map, List.append_cancel_left_eq]
  apply List.map_congr_left
  intro i _
  simp [Nat.add_assoc]

theorem read_congr (h : ∀ o, start ≤ o → o < start + length → b o = b' o) :
    b.read start length = b'.read start length := by
  apply List.map_congr_left
  intro i hi
  exact h _ (Nat.le_add_right ..) (Nat.add_lt_add_left (List.mem_range.mp hi) _)

/-- Part of what is read is what is read of that part. -/
theorem take_drop_read (b : ByteSpace) (start : Nat) {skip width length : Nat}
    (h : skip + width ≤ length) :
    ((b.read start length).drop skip).take width = b.read (start + skip) width := by
  apply List.ext_getElem
  · simp only [List.length_take, List.length_drop, length_read]
    omega
  · intro i hi hi'
    rw [List.getElem_take, List.getElem_drop, read_getElem, read_getElem, Nat.add_assoc]

@[simp]
theorem write_nil (b : ByteSpace) (start : Nat) : b.write start [] = b := by
  funext o
  rw [write, if_neg]
  simp only [List.length_nil, Nat.add_zero]
  omega

theorem write_of_not_mem {o : Nat} (h : ¬ (start ≤ o ∧ o < start + bytes.length)) :
    b.write start bytes o = b o := if_neg h

theorem write_of_mem {o : Nat} (hle : start ≤ o) (hlt : o < start + bytes.length) :
    b.write start bytes o = bytes.getD (o - start) 0 := if_pos ⟨hle, hlt⟩

/-- Zeros that are written over zeros do not show. -/
theorem write_blank (start count : Nat) : blank.write start (List.replicate count 0) = blank := by
  funext o
  unfold write
  split
  next hin =>
    rw [List.length_replicate] at hin
    rw [List.getD_eq_getElem _ _ (by rw [List.length_replicate]; omega), List.getElem_replicate]
    rfl
  next => rfl

/-- A range is written in two parts. -/
theorem write_append (b : ByteSpace) (start : Nat) (first rest : List UInt8) :
    b.write start (first ++ rest) = (b.write start first).write (start + first.length) rest := by
  funext o
  simp only [write, List.length_append]
  by_cases hfirst : start ≤ o ∧ o < start + first.length
  · have hi : o - start < first.length := by omega
    rw [if_pos (by omega), if_neg (by omega), if_pos hfirst, List.getD_append _ _ _ _ hi]
  · by_cases hrest : start + first.length ≤ o ∧ o < start + first.length + rest.length
    · have hi : first.length ≤ o - start := by omega
      rw [if_pos (by omega), if_pos hrest, List.getD_append_right _ _ _ _ hi, Nat.sub_add_eq]
    · rw [if_neg (by omega), if_neg hrest, if_neg hfirst]

/-- What was written is read back. -/
@[simp]
theorem read_write (b : ByteSpace) (start : Nat) (bytes : List UInt8) :
    (b.write start bytes).read start bytes.length = bytes := by
  apply List.ext_getElem
  · simp
  · intro i hi hi'
    rw [read_getElem, write_of_mem (by omega) (by omega), Nat.add_sub_cancel_left,
      List.getD_eq_getElem _ _ hi']

/-- Where bytes of another space were written, they are read. -/
theorem write_read_of_mem (b : ByteSpace) {o : Nat} (hle : start ≤ o) (hlt : o < start + length) :
    b.write start (b'.read start length) o = b' o := by
  rw [write_of_mem hle
    (by rwa [length_read]), List.getD_eq_getElem _ _ (by rw [length_read]; omega),
    read_getElem, Nat.add_sub_cancel' hle]

/-- What lies beside the range written stays. -/
theorem read_write_of_disjoint {other : Nat}
    (h : other + length ≤ start ∨ start + bytes.length ≤ other) :
    (b.write start bytes).read other length = b.read other length :=
  read_congr fun o hle hlt => write_of_not_mem (by omega)

end ByteSpace

end PagedQueue
