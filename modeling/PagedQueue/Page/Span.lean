/-!
# Spans over pages

A range of the byte space is cut at the borders of the pages into pieces, one for each page it
touches, in ascending order. The pieces lie end to end (`flatMap_pieces`) and each stays inside its
page (`piece_within`).
-/

namespace PagedQueue

/-- The part of a range that lies in one page. -/
structure Piece where
  /-- The number of the page. -/
  index : Nat
  start : Nat
  length : Nat
  deriving DecidableEq, Repr

/-- The offsets of the bytes of a piece. -/
def Piece.offsets (piece : Piece) : List Nat := List.range' piece.start piece.length

/-- How much of a range of this length that begins at `start` lies in the page of its first byte. -/
def firstLength (pageSize start length : Nat) : Nat := min (pageSize - start % pageSize) length

/-- The pieces of a range. -/
def pieces (pageSize : Nat) (pageSize_pos : 0 < pageSize) (start length : Nat) : List Piece :=
  if length = 0 then []
  else
    ⟨start / pageSize, start, firstLength pageSize start length⟩
      :: pieces pageSize pageSize_pos (start + firstLength pageSize start length)
        (length - firstLength pageSize start length)
  termination_by length
  decreasing_by
    have := Nat.mod_lt start pageSize_pos
    simp only [firstLength]
    omega

/-- Whether a range lies inside one page. -/
def InOnePage (pageSize start length : Nat) : Prop := start % pageSize + length ≤ pageSize

instance (pageSize start length : Nat) : Decidable (InOnePage pageSize start length) :=
  inferInstanceAs (Decidable (_ ≤ _))

/-- The pieces lie end to end and make up the whole range. -/
theorem flatMap_pieces (pageSize : Nat) (pageSize_pos : 0 < pageSize) (start length : Nat) :
    (pieces pageSize pageSize_pos start length).flatMap Piece.offsets
      = List.range' start length := by
  fun_induction pieces pageSize pageSize_pos start length with
  | case1 => rfl
  | case2 start length _ ih =>
    have hle : firstLength pageSize start length ≤ length := Nat.min_le_right ..
    rw [List.flatMap_cons, ih, Piece.offsets, List.range'_append_1, Nat.add_sub_cancel' hle]

/-- A piece is not empty and lies inside its page. -/
theorem piece_within (pageSize : Nat) (pageSize_pos : 0 < pageSize) (start length : Nat) :
    ∀ piece ∈ pieces pageSize pageSize_pos start length,
      0 < piece.length ∧ piece.index * pageSize ≤ piece.start
        ∧ piece.start + piece.length ≤ (piece.index + 1) * pageSize := by
  fun_induction pieces pageSize pageSize_pos start length with
  | case1 => simp
  | case2 start length hlength ih =>
    intro piece hmem
    rcases List.mem_cons.mp hmem with rfl | hrest
    · have hmod := Nat.mod_lt start pageSize_pos
      have hdiv := Nat.div_add_mod start pageSize
      have hpos : 0 < firstLength pageSize start length := by simp only [firstLength]; omega
      have hle : firstLength pageSize start length ≤ pageSize - start % pageSize :=
        Nat.min_le_left ..
      have hmul : (start / pageSize + 1) * pageSize = pageSize * (start / pageSize) + pageSize := by
        rw [Nat.add_mul, Nat.one_mul, Nat.mul_comm]
      refine ⟨hpos, ?_, ?_⟩
      · exact Nat.div_mul_le_self start pageSize
      · simp only [hmul]
        omega
    · exact ih piece hrest

end PagedQueue
