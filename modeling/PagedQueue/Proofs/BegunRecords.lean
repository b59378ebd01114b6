import PagedQueue.Proofs.PageSpace
import PagedQueue.Proofs.StoredRecords

/-!
# Records that were begun

A record is written one page after the other, so what is on disk of it at any time is a beginning of
its bytes, up to the end of a page, and zeros behind (`ByteSpace.Begun`). As long as its status is
missing it counts as vacant. If the status is there and the rest is missing the record is taken for
one of a message that has no payload, or is a text: that can only be where the border of two pages
lies between the status and the end of the record (`Record.Straddles`, `Begun.cases`).
-/

namespace PagedQueue

namespace Record

/-- The record of a position ends in another page than its status. -/
def Straddles (pageSize position : Nat) : Prop :=
  (place position + 27) / pageSize ≠ (place position + 35) / pageSize

instance (pageSize position : Nat) : Decidable (Straddles pageSize position) :=
  inferInstanceAs (Decidable (_ ≠ _))

/-- Where a record may break off that is written page by page: before it, behind it, or at the end
of a page. -/
def BreaksAt (pageSize position written : Nat) : Prop :=
  written = 0 ∨ written = size ∨ written < size ∧ pageSize ∣ place position + written

theorem breaksAt_le {pageSize position written : Nat} (h : BreaksAt pageSize position written) :
    written ≤ size := by
  rcases h with rfl | rfl | ⟨hlt, -⟩
  · exact Nat.zero_le _
  · exact Nat.le_refl _
  · exact Nat.le_of_lt hlt

/-- Pages hold whole words of eight bytes, so a record breaks off between two of its fields. -/
theorem breaksAt_cases {pageSize position written : Nat} (hpage : 8 ∣ pageSize)
    (h : BreaksAt pageSize position written) :
    written ≤ 24 ∨ written = size ∨ (written = 28 ∨ written = 32)
    ∧ Straddles pageSize position := by
  rcases h with rfl | rfl | ⟨hlt, hdvd⟩
  · exact .inl (Nat.zero_le _)
  · exact .inr (.inl rfl)
  · by_cases hshort : written ≤ 24
    · exact .inl hshort
    · have hfour : 4 ∣ place position + written := Nat.dvd_trans (Nat.dvd_trans ⟨2, rfl⟩ hpage) hdvd
      have hwritten : written = 28 ∨ written = 32 := by
        simp only [place, countSize, size] at hfour hlt
        omega
      refine .inr (.inr ⟨hwritten, fun hsame => ?_⟩)
      -- the page ends behind the status and before the end of the record
      have hpos : 0 < pageSize := by
        refine Nat.pos_of_ne_zero fun hzero => ?_
        rw [hzero, Nat.zero_dvd] at hdvd
        simp only [place, countSize] at hdvd
        omega
      obtain ⟨pages, hpages⟩ := hdvd
      have hbefore : (place position + 27) / pageSize < pages := by
        rw [Nat.div_lt_iff_lt_mul hpos, Nat.mul_comm]
        omega
      have hbehind : pages ≤ (place position + 35) / pageSize := by
        rw [Nat.le_div_iff_mul_le hpos, Nat.mul_comm]
        omega
      omega

theorem encode_take_status (r : Record) :
    r.encode.take 28 ++ List.replicate 8 0 = { r with length := 0, kind := 0 : Record }.encode := by
  have hzeros : encodeInt32 0 = List.replicate 4 0 := by decide
  simp only [encode, hzeros]
  rw [List.append_assoc _ (encodeInt32 r.length), List.take_left' (by simp),
    List.append_assoc _ (List.replicate 4 0), List.replicate_append_replicate]

theorem encode_take_length (r : Record) :
    r.encode.take 32 ++ List.replicate 4 0 = { r with kind := 0 : Record }.encode := by
  have hzeros : encodeInt32 0 = List.replicate 4 0 := by decide
  simp only [encode, hzeros]
  rw [List.take_left' (by simp)]

end Record

namespace ByteSpace

open Record (place size Straddles BreaksAt)

/-- The first bytes of a record are written at a position, and zeros are behind them. -/
def Begun (b : ByteSpace) (position : Nat) (r : Record) (written : Nat) : Prop :=
  ∀ i < size, b (place position + i) = if i < written then r.encode.getD i 0 else 0

variable {b b' : ByteSpace} {position written : Nat} {r : Record}

theorem recordAt_of_read (h : b.read (place position) size = r.encode) :
    b.recordAt position = r := by
  have hdecode := b.decode_read position
  rw [h, Record.decode_encode] at hdecode
  exact (Except.ok.inj hdecode).symm

namespace Begun

theorem congr (h : b.Begun position r written)
    (hsame : ∀ o, InRange (place position) size o → b' o = b o) : b'.Begun position r written :=
  fun i hi => (hsame _ ⟨Nat.le_add_right .., Nat.add_lt_add_left hi _⟩).trans (h i hi)

/-- Where zeros are, nothing of a record is written. -/
theorem of_blank (h : ∀ o, InRange (place position) size o → b o = 0) (r : Record) :
    b.Begun position r 0 :=
  fun _ hi => h _ ⟨Nat.le_add_right .., Nat.add_lt_add_left hi _⟩

/-- More of a record is written. -/
theorem write (h : b.Begun position r written) {more : Nat} (hmore : written + more ≤ size) :
    (b.write (place position + written) ((r.encode.drop written).take more)).Begun position r
      (written + more) := by
  have hlength : ((r.encode.drop written).take more).length = more := by
    rw [List.length_take, List.length_drop, Record.length_encode]
    omega
  intro i hi
  by_cases hin : written ≤ i ∧ i < written + more
  · have hsub : place position + i - (place position + written) = i - written := by omega
    rw [write_of_mem (by omega) (by omega), if_pos hin.2, hsub,
      List.getD_eq_getElem _ _ (by omega), List.getD_eq_getElem _ _ (by simpa using hi),
      List.getElem_take, List.getElem_drop]
    congr 1
    omega
  · rw [write_of_not_mem (by omega), h i hi]
    by_cases hbefore : i < written
    · rw [if_pos hbefore, if_pos (by omega)]
    · rw [if_neg hbefore, if_neg (by omega)]

theorem read_eq (h : b.Begun position r written) (hle : written ≤ size) :
    b.read (place position) size = r.encode.take written ++ List.replicate (size - written) 0 := by
  have hlength := Record.length_encode r
  refine List.ext_getElem (by simp [hlength]; omega) fun i hi _ => ?_
  rw [length_read] at hi
  rw [read_getElem, h i hi, List.getElem_append]
  simp only [List.length_take, hlength]
  by_cases hbefore : i < written
  · rw [if_pos hbefore, dif_pos (by omega), List.getElem_take, List.getD_eq_getElem]
  · rw [if_neg hbefore, dif_neg (by omega), List.getElem_replicate]

/-- A record of which everything is written is read as it is. -/
theorem recordAt_eq (h : b.Begun position r size) : b.recordAt position = r := by
  refine recordAt_of_read ?_
  rw [h.read_eq (Nat.le_refl _), Nat.sub_self, List.take_of_length_le (by simp)]
  simp

/-- As long as the status is missing nothing counts. -/
theorem isVacant (h : b.Begun position r written) (hshort : written ≤ 24) :
    (b.recordAt position).IsVacant := by
  have hzero : b.read (place position + 24) 4 = List.replicate 4 0 := by
    refine List.ext_getElem (by simp) fun i hi _ => ?_
    rw [length_read] at hi
    have hi' : 24 + i < size := Nat.lt_of_lt_of_le (Nat.add_lt_add_left hi 24) (by decide)
    rw [read_getElem, Nat.add_assoc, h _ hi', if_neg (by omega), List.getElem_replicate]
  refine .inr ?_
  show decodeInt32 (b.read (place position + 24) 4) = Status.vacant.tag
  rw [hzero]
  decide

/-- A record that was begun is vacant, or complete; or its length, and perhaps its kind, are
missing, which can only be where it straddles two pages. -/
theorem cases {pageSize : Nat} (h : b.Begun position r written) (hpage : 8 ∣ pageSize)
    (hbreak : BreaksAt pageSize position written) :
    (b.recordAt position).IsVacant ∨ written = size ∧ b.recordAt position = r
      ∨ written ≠ size ∧ Straddles pageSize position
        ∧ (b.recordAt position = { r with length := 0, kind := 0 }
          ∨ b.recordAt position = { r with kind := 0 }) := by
  rcases Record.breaksAt_cases hpage hbreak with hshort | rfl | ⟨rfl | rfl, hstraddles⟩
  · exact .inl (h.isVacant hshort)
  · exact .inr (.inl ⟨rfl, h.recordAt_eq⟩)
  · refine .inr (.inr ⟨by decide, hstraddles, .inl (recordAt_of_read ?_)⟩)
    rw [h.read_eq (by decide)]
    exact r.encode_take_status
  · refine .inr (.inr ⟨by decide, hstraddles, .inr (recordAt_of_read ?_)⟩)
    rw [h.read_eq (by decide)]
    exact r.encode_take_length

end Begun

end ByteSpace

end PagedQueue
