import PagedQueue.Proofs.QueueWrites

/-!
# Records and their bytes

Every record has its 36 bytes and every 36 bytes are those of one record
(`Record.decode_eq_ok_iff`), since this is so for the word in each field. An entry has a record,
from which it is made again as long as the place and the length of its payload are no negative
numbers as signed words (`Entry.ofRecord_toRecord`).

A status is stored in two ways: with the whole record when a message enters, and alone when it
moves. Both come to the same: a status that is written over four of the bytes leaves the bytes of
the record with that status (`Record.encode_withStatus`), and this is what moving a status does to
the file (`ByteSpace.read_write_status`, `MessageIndex.persistStatus_patches`).
-/

namespace PagedQueue

open Procedure
open PageStore (Ready)
open Record (place statusOffset)

namespace Record

/-- A record is made up of the bytes that it was read from. -/
theorem encode_of_decode {bytes : List UInt8} {r : Record} (h : decode bytes = .ok r) :
    r.encode = bytes := by
  unfold decode at h
  split at h
  next => cases h
  next hsize =>
    have hlength : bytes.length = 36 := Decidable.not_not.mp hsize
    obtain rfl := Except.ok.inj h
    have hfield (start width : Nat) (hend : start + width ≤ 36) :
        ((bytes.drop start).take width).length = width := by
      rw [List.length_take, List.length_drop, hlength]
      omega
    -- the fields lie side by side, so their bytes join up to all of them
    have hjoin (start width more : Nat) :
        (bytes.drop start).take width ++ (bytes.drop (start + width)).take more
        = (bytes.drop start).take (width + more) := by
      rw [List.take_add, List.drop_drop]
    simp only [encode, encodeUInt64_decodeUInt64 (hfield 0 8 (by decide)),
      encodeUInt64_decodeUInt64 (hfield 8 8 (by decide)),
      encodeInt64_decodeInt64 (hfield 16 8 (by decide)),
      encodeInt32_decodeInt32 (hfield 24 4 (by decide)),
        encodeInt32_decodeInt32 (hfield 28 4 (by decide)),
      encodeInt32_decodeInt32 (hfield 32 4 (by decide))]
    calc
      _ = (bytes.drop 0).take 36 := by
        rw [hjoin 0 8 8, hjoin 0 16 8, hjoin 0 24 4, hjoin 0 28 4, hjoin 0 32 4]
      _ = bytes := List.take_of_length_le (Nat.le_of_eq hlength)

/-- Records correspond to their bytes. -/
theorem decode_eq_ok_iff {bytes : List UInt8} {r : Record} :
    decode bytes = .ok r ↔ bytes = r.encode := by
  constructor
  · intro h
    exact (encode_of_decode h).symm
  · rintro rfl
    exact decode_encode r

theorem exists_decode_eq_ok {bytes : List UInt8} (h : bytes.length = size) :
    ∃ r, decode bytes = .ok r := by
  unfold decode
  rw [if_neg (not_not_intro h)]
  exact ⟨_, rfl⟩

theorem decode_of_length_ne {bytes : List UInt8} (h : bytes.length ≠ size) :
    decode bytes = .error (.corruption (.recordSize bytes.length)) := if_pos h

/-- The record with another status. -/
def withStatus (r : Record) (status : Status) : Record := { r with status := status.tag }

/-- A status that is written over the one in the bytes of a record makes them those of the record
with this status. -/
theorem encode_withStatus (r : Record) (status : Status) : (r.withStatus status).encode
    = r.encode.take statusOffset ++ encodeInt32 status.tag ++ r.encode.drop (statusOffset + 4) := by
  simp [encode, withStatus, statusOffset, List.take_append, List.drop_append,
    List.drop_eq_nil_of_le,
    List.take_of_length_le]

end Record

/-- Wherever the bytes of a record lie, a status written over four of them makes them those of the
record with this status. -/
theorem ByteSpace.read_write_status {b : ByteSpace} {r : Record} {position : Nat}
    (h : b.read (place position) Record.size = r.encode) (status : Status) :
    (b.write (place position + statusOffset) (encodeInt32 status.tag)).read
      (place position) Record.size
      = (r.withStatus status).encode := by
  have hbefore : b.recordAt position = r := by
    have hdecode := b.decode_read position
    rw [h, Record.decode_encode] at hdecode
    exact (Except.ok.inj hdecode).symm
  have hafter :=
    (b.write (place position + statusOffset) (encodeInt32 status.tag)).decode_read position
  rw [recordAt_write_status, hbefore] at hafter
  exact Record.decode_eq_ok_iff.mp hafter

namespace MessageIndex

/-- What is stored of a status that was moved: the bytes of the record with this status. -/
theorem persistStatus_patches {s : Session MessageIndex} (hready : Ready (pagesOf s))
    (id : EntryId) :
    let position := (s.memory.entry id).position
    (persistStatus id).Leads s
      (fun _ t => ∀ r : Record, (bytesOf s).read (place position) Record.size = r.encode →
        (bytesOf t).read (place position) Record.size
        = (r.withStatus (s.memory.entry id).status).encode)
      fun _ _ => Unreadable (InRange (place position + statusOffset) 4) s := by
  refine (persistStatus_writes hready id).mono (fun _ t ht r hr => ?_) fun _ _ hunreadable =>
    hunreadable
  rw [ht.2.1]
  exact ByteSpace.read_write_status hr _

end MessageIndex

/-! ## The entries of records -/

/-- A word below half of what a word holds is not negative as a signed one. -/
theorem not_toInt64_neg {word : UInt64} (h : word.toNat < 0x8000000000000000) :
    ¬ word.toInt64 < 0 := by
  rw [Int64.lt_iff_toInt_lt, Int64.toInt, UInt64.toBitVec_toInt64, BitVec.toInt_eq_toNat_of_lt]
  · exact Int.not_lt.mpr (Int.natCast_nonneg _)
  · rw [UInt64.toNat_toBitVec]
    omega

theorem not_toInt32_neg {word : UInt32} (h : word.toNat < 0x80000000) : ¬ word.toInt32 < 0 := by
  rw [Int32.lt_iff_toInt_lt, Int32.toInt, UInt32.toBitVec_toInt32, BitVec.toInt_eq_toNat_of_lt]
  · exact Int.not_lt.mpr (Int.natCast_nonneg _)
  · rw [UInt32.toNat_toBitVec]
    omega

/-- An entry is made again from its record. -/
theorem Entry.ofRecord_toRecord {e : Entry} (hoffset : e.offset.toNat < 0x8000000000000000)
    (hlength : e.length.toNat < 0x80000000) (position : Nat) :
    ofRecord e.toRecord position e.status = .ok { e with position } := by
  have hextent : ¬ (e.toRecord.offset < 0 ∨ e.toRecord.length < 0) := by
    rintro (hneg | hneg)
    · exact not_toInt64_neg hoffset hneg
    · exact not_toInt32_neg hlength hneg
  have huuid : e.toRecord.uuid = e.uuid := Uuid.ofHalves_high_low e.uuid
  have hkind : Kind.ofTag e.toRecord.kind = .ok e.kind := Kind.ofTag_tag e.kind
  rw [ofRecord, if_neg hextent, hkind, huuid]
  rfl

/-- Records and bytes undo each other: a record has 36 bytes, which are read as the record; 36 bytes
make up a record, which has these bytes; and other numbers of bytes are refused. The UUID from which
a record is made is its UUID. Its status is replaced by writing the four bytes of another one over
those from the 24th on, and this is what a status that is moved does to the file. An entry whose
payload lies where signed words tell is made again from its record. -/
theorem records_are_their_bytes :
    (∀ r : Record, r.encode.length = 36 ∧ Record.decode r.encode = .ok r)
    ∧ (∀ bytes : List UInt8, bytes.length = 36 → ∃ r, Record.decode bytes = .ok r
      ∧ r.encode = bytes)
    ∧ (∀ bytes : List UInt8, bytes.length ≠ 36 →
      Record.decode bytes = .error (.corruption (.recordSize bytes.length)))
    ∧ (∀ (u : Uuid) (offset : UInt64) (length : UInt32) (status : Status) (kind : Int32),
      (Record.make u offset length status kind).uuid = u)
    ∧ (∀ (r : Record) (status : Status),
      r.encode.take 24 ++ encodeInt32 status.tag ++ r.encode.drop 28
      = Record.encode { r with status := status.tag })
    ∧ (∀ (s : Session MessageIndex) (id : EntryId), Ready (MessageIndex.pagesOf s) →
      (MessageIndex.persistStatus id).Leads s
        (fun _ t => ∀ r : Record,
          (MessageIndex.bytesOf s).read (place (s.memory.entry id).position) 36 = r.encode →
          (MessageIndex.bytesOf t).read (place (s.memory.entry id).position) 36
            = Record.encode { r with status := (s.memory.entry id).status.tag })
        fun _ _ => MessageIndex.Unreadable (InRange (place (s.memory.entry id).position + 24) 4) s)
    ∧ ∀ (e : Entry) (position : Nat), e.offset.toNat < 0x8000000000000000 →
      e.length.toNat < 0x80000000 →
      (Status.ofTag e.toRecord.status >>= Entry.ofRecord e.toRecord position) = .ok
        { e with position } := by
  refine ⟨fun r => ⟨r.length_encode, r.decode_encode⟩, fun bytes hlength => ?_,
    fun bytes => Record.decode_of_length_ne, fun u _ _ _ _ => Uuid.ofHalves_high_low u,
    fun r status => (r.encode_withStatus status).symm,
    fun s id hready => MessageIndex.persistStatus_patches hready id,
      fun e position hoffset hlength => ?_⟩
  · obtain ⟨r, hr⟩ := Record.exists_decode_eq_ok hlength
    exact ⟨r, hr, (Record.decode_eq_ok_iff.mp hr).symm⟩
  · have hstatus : Status.ofTag e.toRecord.status = .ok e.status := Status.ofTag_tag e.status
    rw [hstatus]
    exact Entry.ofRecord_toRecord hoffset hlength position

/-! ## An entry that was not stored -/

/-- The entry of a message whose payload lies as far behind as it can. -/
def farEntry : Entry := ⟨⟨1⟩, 0x7FFFFFFFFFFFFFFF, 0x7FFFFFFF, .json, 0, .locked⟩

/-- An index in a directory that is still empty, with an entry of which nothing was stored. -/
def unstoredIndex : Session MessageIndex :=
  ⟨⟨(Change.makeDirectory ["meta"]).apply 0 {}, ⟨fun _ => 0, 0⟩, []⟩,
    { file := { store := .opened ["meta"] 8 PageStore.eightBytes_pos 0 }, entries := #[farEntry] }⟩

theorem ready_unstoredIndex : Ready (MessageIndex.pagesOf unstoredIndex) :=
  ⟨(Disk.fresh_new []).sound.apply (.makeDirectory ["meta"]) 0, .of_cached_empty rfl⟩

/-- Bytes that are all set are a record, no bytes are none, the entry is made again, and its status
is all that is stored if it is written alone. -/
theorem records_are_their_bytes_far :
    (∃ r, Record.decode (List.replicate 36 0xFF) = .ok r ∧ r.encode = List.replicate 36 0xFF)
    ∧ Record.decode [] = .error (.corruption (.recordSize 0))
    ∧ (Status.ofTag farEntry.toRecord.status >>= Entry.ofRecord farEntry.toRecord 7)
      = .ok { farEntry with position := 7 }
    ∧ Ready (MessageIndex.pagesOf unstoredIndex)
    ∧ ∃ t, (MessageIndex.persistStatus 0).outcome unstoredIndex = (.ok (), t)
      ∧ (MessageIndex.bytesOf t).read (place 0) 36 = Record.encode
        { Record.empty with status := 2 } := by
  obtain ⟨-, hread, hrefused, -, -, hpatched, hentry⟩ := records_are_their_bytes
  have hdone : ((MessageIndex.persistStatus 0).outcome unstoredIndex).1.toOption = some () := by
    decide +kernel
  have hrun : (MessageIndex.persistStatus 0).outcome unstoredIndex
      = (.ok (), ((MessageIndex.persistStatus 0).outcome unstoredIndex).2) :=
      Prod.ext (ok_of_toOption hdone) rfl
  have hblank : (MessageIndex.bytesOf unstoredIndex).read (place 0) 36 = Record.empty.encode := by
    decide +kernel
  exact ⟨hread _ (by decide), hrefused [] (by decide), hentry farEntry 7 (by decide) (by decide),
    ready_unstoredIndex, _, hrun,
    (hpatched unstoredIndex 0 ready_unstoredIndex).of_ok hrun _ hblank⟩

end PagedQueue
