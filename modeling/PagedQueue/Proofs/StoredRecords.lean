import PagedQueue.Index.Entry
import PagedQueue.Page.Span
import PagedQueue.Proofs.ByteSpace

/-!
# Records in a space of bytes

The record of a position has a fixed place in the file of records, so it is a reading of the space
of bytes (`ByteSpace.recordAt`), and writing a record or a status changes what is read at that
position only (`recordAt_write`, `recordAt_write_status`). The bytes of the count and of a status
never lie over the border of two pages (`status_inOnePage`).

A record is vacant, a tombstone, live, or it makes no sense (`Record.Faulty`); `Slot.ofRecord` tells
these apart (`Slot.ofRecord_cases`). The entry of a live record has that record again
(`Record.toRecord_toEntry`).
-/

namespace PagedQueue

namespace Uuid

@[simp]
theorem high_ofHalves (high low : UInt64) : (ofHalves high low).high = high := by
  apply UInt64.toBitVec_inj.mp
  simp only [ofHalves, Uuid.high]
  ext i hi
  simp only [BitVec.getElem_setWidth, BitVec.getLsbD_ushiftRight, BitVec.getLsbD_or,
    BitVec.getLsbD_shiftLeft, BitVec.getLsbD_setWidth]
  have hbelow : 64 + i < 128 := by omega
  have habove : ¬ 64 + i < 64 := by omega
  have hsub : 64 + i - 64 = i := by omega
  have hin : i < 128 := by omega
  simp [hbelow, habove, hsub, hin, BitVec.getLsbD_eq_getElem hi]

@[simp]
theorem low_ofHalves (high low : UInt64) : (ofHalves high low).low = low := by
  apply UInt64.toBitVec_inj.mp
  simp only [ofHalves, Uuid.low]
  ext i hi
  simp only [BitVec.getElem_setWidth, BitVec.getLsbD_or, BitVec.getLsbD_shiftLeft,
    BitVec.getLsbD_setWidth]
  have hin : i < 128 := by omega
  simp [hi, hin]

/-- The nil UUID is that of two zero halves. -/
theorem ofHalves_eq_nil_iff {high low : UInt64} : ofHalves high low = nil ↔ high = 0 ∧ low = 0 := by
  constructor
  · intro h
    have hhigh := congrArg Uuid.high h
    have hlow := congrArg Uuid.low h
    rw [high_ofHalves] at hhigh
    rw [low_ofHalves] at hlow
    exact ⟨hhigh, hlow⟩
  · intro hand
    obtain ⟨rfl, rfl⟩ := hand
    rfl

theorem isNil_iff {u : Uuid} : u.isNil = true ↔ u = nil := by
  obtain ⟨bits⟩ := u
  simp [isNil, nil]

end Uuid

/-! ## What a record means -/

namespace Record

/-- Nothing was written, or nothing that counts: the UUID alone tells, or else the tag. -/
def IsVacant (r : Record) : Prop := r.uuid = Uuid.nil ∨ r.status = Status.vacant.tag

/-- The message is finished. -/
def IsTombstone (r : Record) : Prop := r.uuid ≠ Uuid.nil ∧ r.status = Status.deleted.tag

/-- The message waits or is taken. -/
def IsLive (r : Record) : Prop :=
  r.uuid ≠ Uuid.nil ∧ (r.status = Status.new.tag ∨ r.status = Status.locked.tag)

instance (r : Record) : Decidable r.IsVacant := inferInstanceAs (Decidable (_ ∨ _))
instance (r : Record) : Decidable r.IsTombstone := inferInstanceAs (Decidable (_ ∧ _))
instance (r : Record) : Decidable r.IsLive := inferInstanceAs (Decidable (_ ∧ _))

/-- The record makes no sense: its status is none, or it is live and its payload would lie below
zero or be of no kind. -/
def Faulty (r : Record) : Prop :=
  r.uuid ≠ Uuid.nil ∧ (r.status ∉ [0, 1, 2, 3]
    ∨ (r.status = 1 ∨ r.status = 2) ∧ (r.offset < 0 ∨ r.length < 0 ∨ r.kind ∉ [0, 1]))

instance (r : Record) : Decidable r.Faulty := inferInstanceAs (Decidable (_ ∧ _))

/-- The entry of a live record. -/
def toEntry (r : Record) (position : Nat) : Entry where
  uuid := r.uuid
  offset := r.offset.toUInt64
  length := r.length.toUInt32
  kind := if r.kind = 0 then .text else .json
  position := position
  status := if r.status = 1 then .new else .locked

/-- A record is empty if it bears the nil UUID. -/
theorem isEmpty_iff (r : Record) : r.isEmpty = true ↔ r.uuid = Uuid.nil := by
  rw [uuid, Uuid.ofHalves_eq_nil_iff, isEmpty, Bool.and_eq_true, beq_iff_eq, beq_iff_eq]

/-- The entry of a live record that makes sense has that record. -/
theorem toRecord_toEntry {r : Record} (hlive : r.IsLive) (hsense : ¬ r.Faulty) (position : Nat) :
    (r.toEntry position).toRecord = r := by
  have hkind : r.kind = 0 ∨ r.kind = 1 := by
    refine Decidable.byContradiction fun hno => hsense ⟨hlive.1, .inr ⟨hlive.2, .inr (.inr ?_)⟩⟩
    simpa using hno
  obtain ⟨high, low, offset, status, length, kind⟩ := r
  have hhigh : (uuid ⟨high, low, offset, status, length, kind⟩).high = high := Uuid.high_ofHalves ..
  have hlow : (uuid ⟨high, low, offset, status, length, kind⟩).low = low := Uuid.low_ofHalves ..
  simp only at hkind
  simp only [Entry.toRecord, toEntry, make, hhigh, hlow, Record.mk.injEq, true_and]
  refine ⟨rfl, ?_, rfl, ?_⟩
  · rcases hlive.2 with hstatus | hstatus
    · obtain rfl : status = 1 := hstatus
      rfl
    · obtain rfl : status = 2 := hstatus
      rfl
  · rcases hkind with rfl | rfl
    · rfl
    · rfl

theorem isLive_toEntry (r : Record) (position : Nat) :
    (r.toEntry position).status.isLive = true := by
  unfold toEntry
  simp only
  split <;> rfl

/-- A record is decoded from its bytes. -/
@[simp]
theorem decode_encode (r : Record) : decode r.encode = .ok r := by
  have hoffset : (r.encode.drop 16).take 8 = encodeInt64 r.offset := by
    simp [encode, List.drop_append, List.drop_eq_nil_of_le]
  have hstatus : (r.encode.drop 24).take 4 = encodeInt32 r.status := by
    simp [encode, List.drop_append, List.drop_eq_nil_of_le]
  have hextent : (r.encode.drop 28).take 4 = encodeInt32 r.length := by
    simp [encode, List.drop_append, List.drop_eq_nil_of_le]
  have hkind : (r.encode.drop 32).take 4 = encodeInt32 r.kind := by
    simp [encode, List.drop_append, List.drop_eq_nil_of_le, List.take_of_length_le]
  have hhigh : (r.encode.drop 0).take 8 = encodeUInt64 r.high := by simp [encode]
  have hlow : (r.encode.drop 8).take 8 = encodeUInt64 r.low := by simp [encode]
  simp only [decode, length_encode, ne_eq, not_true_eq_false, if_false, hhigh, hlow, hoffset,
    hstatus, hextent, hkind, decodeUInt64_encodeUInt64, decodeInt64_encodeInt64,
    decodeInt32_encodeInt32]

end Record

/-- A record makes an entry exactly if its fields are sound. -/
theorem Entry.ofRecord_cases (r : Record) (position : Nat) (status : Status) :
    ¬ (r.offset < 0 ∨ r.length < 0 ∨ r.kind ∉ [0, 1])
        ∧ ofRecord r position status = .ok { r.toEntry position with status }
      ∨ (r.offset < 0 ∨ r.length < 0 ∨ r.kind ∉ [0, 1])
        ∧ ∃ fault, ofRecord r position status = .error fault := by
  unfold ofRecord
  by_cases hextent : r.offset < 0 ∨ r.length < 0
  · rw [if_pos hextent]
    exact .inr ⟨hextent.imp_right .inl, _, rfl⟩
  · rw [if_neg hextent]
    unfold Kind.ofTag
    by_cases htext : r.kind = 0
    · rw [if_pos htext]
      exact .inl ⟨by simp_all, by simp only [Record.toEntry, if_pos htext]; rfl⟩
    · by_cases hjson : r.kind = 1
      · rw [if_neg htext, if_pos hjson]
        exact .inl ⟨by simp_all, by simp only [Record.toEntry, if_neg htext]; rfl⟩
      · rw [if_neg htext, if_neg hjson]
        exact .inr ⟨.inr (.inr (by simp [htext, hjson])), _, rfl⟩

/-- A record has exactly one meaning, or makes no sense and has none. -/
theorem Slot.ofRecord_cases (r : Record) (position : Nat) :
    r.IsVacant ∧ ¬ r.Faulty ∧ ofRecord r position = .ok .vacant
      ∨ r.IsTombstone ∧ ¬ r.Faulty ∧ ofRecord r position = .ok .tombstone
      ∨ r.IsLive ∧ ¬ r.Faulty ∧ ofRecord r position = .ok (.live (r.toEntry position))
      ∨ r.Faulty ∧ ∃ fault, ofRecord r position = .error fault := by
  by_cases hnil : r.uuid = Uuid.nil
  · have hempty : r.isEmpty = true := r.isEmpty_iff.mpr hnil
    exact .inl ⟨.inl hnil, fun hfaulty => hfaulty.1 hnil, by rw [ofRecord, if_pos hempty]⟩
  have hempty : ¬ r.isEmpty = true := fun h => hnil (r.isEmpty_iff.mp h)
  unfold ofRecord Status.ofTag
  rw [if_neg hempty]
  by_cases h0 : r.status = 0
  · have hsense : ¬ r.Faulty := by simp [Record.Faulty, h0]
    rw [if_pos h0]
    exact .inl ⟨.inr h0, hsense, rfl⟩
  by_cases h1 : r.status = 1
  · rw [if_neg h0, if_pos h1]
    have hlive : r.IsLive := ⟨hnil, .inl h1⟩
    rcases Entry.ofRecord_cases r position .new with ⟨hfine, heq⟩ | ⟨hbad, fault, heq⟩
    · have hsense : ¬ r.Faulty := by simpa [Record.Faulty, hnil, h1] using hfine
      refine .inr (.inr (.inl ⟨hlive, hsense, ?_⟩))
      simp only [bind, Except.bind, heq, pure, Except.pure, Record.toEntry, h1, if_true]
    · refine .inr (.inr (.inr ⟨⟨hnil, .inr ⟨.inl h1, hbad⟩⟩, fault, ?_⟩))
      simp only [bind, Except.bind, heq]
  by_cases h2 : r.status = 2
  · rw [if_neg h0, if_neg h1, if_pos h2]
    have hlive : r.IsLive := ⟨hnil, .inr h2⟩
    rcases Entry.ofRecord_cases r position .locked with ⟨hfine, heq⟩ | ⟨hbad, fault, heq⟩
    · have hsense : ¬ r.Faulty := by simpa [Record.Faulty, hnil, h2] using hfine
      refine .inr (.inr (.inl ⟨hlive, hsense, ?_⟩))
      simp only [bind, Except.bind, heq, pure, Except.pure, Record.toEntry, h1, if_false]
    · refine .inr (.inr (.inr ⟨⟨hnil, .inr ⟨.inr h2, hbad⟩⟩, fault, ?_⟩))
      simp only [bind, Except.bind, heq]
  by_cases h3 : r.status = 3
  · have hsense : ¬ r.Faulty := by simp [Record.Faulty, h3]
    rw [if_neg h0, if_neg h1, if_neg h2, if_pos h3]
    exact .inr (.inl ⟨⟨hnil, h3⟩, hsense, rfl⟩)
  · rw [if_neg h0, if_neg h1, if_neg h2, if_neg h3]
    exact .inr (.inr (.inr ⟨⟨hnil, .inl (by simp [h0, h1, h2, h3])⟩, _, rfl⟩))

/-- The record of an entry is live if the entry is. -/
theorem Entry.isLive_toRecord_iff (e : Entry) :
    e.toRecord.IsLive ↔ e.uuid ≠ Uuid.nil ∧ e.status.isLive = true := by
  have huuid : e.toRecord.uuid = e.uuid := Uuid.ofHalves_high_low e.uuid
  have hstatus : e.toRecord.status = e.status.tag := rfl
  rw [Record.IsLive, huuid, hstatus]
  refine and_congr_right fun _ => ?_
  cases e.status <;> decide

/-- An entry in the queue is the entry of its record. -/
theorem Entry.toEntry_toRecord {e : Entry} (hlive : e.status.isLive = true) :
    e.toRecord.toEntry e.position = e := by
  obtain ⟨uuid, offset, length, kind, position, status⟩ := e
  have huuid : Uuid.ofHalves uuid.high uuid.low = uuid := Uuid.ofHalves_high_low uuid
  simp only [toRecord, Record.toEntry, Record.make, Record.uuid, huuid, Entry.mk.injEq, true_and]
  refine ⟨rfl, rfl, ?_, ?_⟩
  · cases kind <;> rfl
  · cases status with
    | vacant => cases hlive
    | new => rfl
    | locked => rfl
    | deleted => cases hlive

/-- The entry of a live record is the one that has the record. -/
theorem Record.toEntry_eq_iff {r : Record} (hlive : r.IsLive) (hsense : ¬ r.Faulty) {position : Nat}
    {e : Entry} : r.toEntry position = e ↔ e.toRecord = r ∧ e.position = position := by
  constructor
  · intro heq
    subst heq
    exact ⟨toRecord_toEntry hlive hsense position, rfl⟩
  · intro hand
    obtain ⟨rfl, rfl⟩ := hand
    exact Entry.toEntry_toRecord ((Entry.isLive_toRecord_iff e).mp hlive).2

/-! ## Where records are -/

namespace ByteSpace

/-- The record at a position, field by field. -/
def recordAt (b : ByteSpace) (position : Nat) : Record where
  high := decodeUInt64 (b.read (Record.place position) 8)
  low := decodeUInt64 (b.read (Record.place position + 8) 8)
  offset := decodeInt64 (b.read (Record.place position + 16) 8)
  status := decodeInt32 (b.read (Record.place position + 24) 4)
  length := decodeInt32 (b.read (Record.place position + 28) 4)
  kind := decodeInt32 (b.read (Record.place position + 32) 4)

/-- The count in front of the records. -/
def count (b : ByteSpace) : Int32 := decodeInt32 (b.read 0 4)

variable {b b' : ByteSpace}

theorem decode_read (b : ByteSpace) (position : Nat) :
    Record.decode (b.read (Record.place position) Record.size) = .ok (b.recordAt position) := by
  have hfield (skip width : Nat) (h : skip + width ≤ Record.size) :
      ((b.read (Record.place position) Record.size).drop skip).take width
        = b.read (Record.place position + skip) width := take_drop_read b _ h
  simp only [Record.decode, length_read, ne_eq, not_true_eq_false, if_false,
    hfield 0 8 (by decide), hfield 8 8 (by decide), hfield 16 8 (by decide),
    hfield 24 4 (by decide), hfield 28 4 (by decide), hfield 32 4 (by decide)]
  rfl

/-- A record is told by its own bytes. -/
theorem recordAt_congr {position : Nat}
    (h : ∀ o, Record.place position ≤ o → o < Record.place position + Record.size → b o = b' o) :
    b.recordAt position = b'.recordAt position := by
  have hread := read_congr h
  have hdecode := b.decode_read position
  rw [hread, decode_read] at hdecode
  exact (Except.ok.inj hdecode).symm

/-- The count is told by its own bytes. -/
theorem count_congr (h : ∀ o, o < Record.countSize → b o = b' o) : b.count = b'.count :=
  congrArg decodeInt32 (read_congr fun o _ hlt => h o (by simpa [Record.countSize] using hlt))

/-- A record that was written is read back. -/
@[simp]
theorem recordAt_write (b : ByteSpace) (position : Nat) (r : Record) :
    (b.write (Record.place position) r.encode).recordAt position = r := by
  have hread := read_write b (Record.place position) r.encode
  have hdecode := (b.write (Record.place position) r.encode).decode_read position
  rw [Record.length_encode] at hread
  rw [hread, Record.decode_encode] at hdecode
  exact (Except.ok.inj hdecode).symm

/-- Writing beside a record leaves it. -/
theorem recordAt_write_of_disjoint {start position : Nat} {bytes : List UInt8}
    (h : Record.place position + Record.size ≤ start
      ∨ start + bytes.length ≤ Record.place position) :
    (b.write start bytes).recordAt position = b.recordAt position :=
  recordAt_congr fun o hle hlt => write_of_not_mem (by omega)

/-- Records lie one behind the other. -/
theorem place_add_size_le {p q : Nat} (h : p < q) :
    Record.place p + Record.size ≤ Record.place q := by
  simp only [Record.place, Record.size]
  omega

/-- Where the status of a record is. -/
theorem status_place_le {p q : Nat} (h : p ≠ q) :
    Record.place q + Record.size ≤ Record.place p + Record.statusOffset
      ∨ Record.place p + Record.statusOffset + 4 ≤ Record.place q := by
  simp only [Record.place, Record.size, Record.statusOffset]
  omega

/-- Writing a status changes the status of its record. -/
theorem recordAt_write_status (b : ByteSpace) (position : Nat) (tag : Int32) :
    (b.write (Record.place position + Record.statusOffset) (encodeInt32 tag)).recordAt position
      = { b.recordAt position with status := tag } := by
  have hbeside (skip width : Nat) (h : skip + width ≤ 24 ∨ 28 ≤ skip) :
      (b.write (Record.place position + Record.statusOffset) (encodeInt32 tag)).read
        (Record.place position + skip) width = b.read (Record.place position + skip) width := by
    apply read_write_of_disjoint
    rw [length_encodeInt32, Record.statusOffset]
    omega
  have hstatus : (b.write (Record.place position + Record.statusOffset) (encodeInt32 tag)).read
      (Record.place position + 24) 4 = encodeInt32 tag := by
    have hread := read_write b (Record.place position + Record.statusOffset) (encodeInt32 tag)
    rwa [length_encodeInt32] at hread
  have hhigh := hbeside 0 8 (.inl (by decide))
  simp only [Nat.add_zero] at hhigh
  simp only [recordAt, hhigh, hbeside 8 8 (.inl (by decide)),
    hbeside 16 8 (.inl (by decide)), hstatus,
    hbeside 28 4 (.inr (by decide)),
    hbeside 32 4 (.inr (by decide)), decodeInt32_encodeInt32]

/-- A status that is stored changes no other record. -/
theorem recordAt_write_status_of_ne {p q : Nat} (h : p ≠ q) (tag : Int32) :
    (b.write (Record.place p + Record.statusOffset) (encodeInt32 tag)).recordAt q = b.recordAt q :=
  recordAt_write_of_disjoint (by rw [length_encodeInt32]; exact status_place_le h)

/-- Records are behind the count. -/
theorem recordAt_write_count (n : Int32) (position : Nat) :
    (b.write 0 (encodeInt32 n)).recordAt position = b.recordAt position := by
  apply recordAt_write_of_disjoint
  rw [length_encodeInt32, Record.place, Record.countSize]
  omega

/-- A count that is stored is read back. -/
@[simp]
theorem count_write_count (b : ByteSpace) (n : Int32) : (b.write 0 (encodeInt32 n)).count = n := by
  have hread := read_write b 0 (encodeInt32 n)
  rw [length_encodeInt32] at hread
  rw [count, hread, decodeInt32_encodeInt32]

/-- No record overlaps the count. -/
theorem count_write_of_le {start : Nat} {bytes : List UInt8} (h : Record.countSize ≤ start) :
    (b.write start bytes).count = b.count :=
  count_congr fun o hlt => write_of_not_mem (by omega)

/-- No status does, either. -/
theorem count_write_status (b : ByteSpace) (position : Nat) (tag : Int32) :
    (b.write (Record.place position + Record.statusOffset) (encodeInt32 tag)).count = b.count :=
  count_write_of_le (Nat.le_trans (Nat.le_add_right _ _) (Nat.le_add_right _ _))

/-- The bytes of a status lie inside one page if a page holds whole words of eight bytes. -/
theorem status_inOnePage {pageSize : Nat} (h : 8 ∣ pageSize) (hpos : 0 < pageSize)
    (position : Nat) :
    InOnePage pageSize (Record.place position + Record.statusOffset) 4 := by
  obtain ⟨words, rfl⟩ := h
  have hmod := Nat.mod_lt (Record.place position + Record.statusOffset) hpos
  -- the place is a multiple of four, and so is what is left of it in the page
  have hfour : 4 ∣ (Record.place position + Record.statusOffset) % (8 * words) := by
    refine (Nat.dvd_mod_iff ⟨2 * words, by omega⟩).mpr ?_
    simp only [Record.place, Record.countSize, Record.size, Record.statusOffset]
    omega
  obtain ⟨k, hk⟩ := hfour
  unfold InOnePage
  omega

/-- The count lies within the first page. -/
theorem count_inOnePage {pageSize : Nat} (h : 4 ≤ pageSize) : InOnePage pageSize 0 4 := by
  unfold InOnePage
  rw [Nat.zero_mod]
  omega

end ByteSpace

end PagedQueue
