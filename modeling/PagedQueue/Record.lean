import PagedQueue.Message
import PagedQueue.Word

/-!
# Records

The state of one message is stored as a record of 36 bytes: the two halves of its UUID, the place
and the length of its payload, its status and its kind, each as a big-endian word. Records follow
one another behind a count of four bytes, so the record of a position has a fixed place in the file.

The status of a message changes while all else stays. Its four bytes stand at a fixed place inside
the record, so it can be changed while the rest of the record is left alone.
-/

namespace PagedQueue

/-- Where a message stands. -/
inductive Status where
  /-- A slot that no message was written to. -/
  | vacant
  /-- Waiting to be taken. -/
  | new
  /-- Taken by a client. -/
  | locked
  /-- Finished; the record stays as a tombstone. -/
  | deleted
  deriving DecidableEq, Inhabited, Repr

namespace Status

/-- The tag by which a status is stored. -/
def tag : Status → Int32
  | vacant => 0
  | new => 1
  | locked => 2
  | deleted => 3

/-- The status that a stored tag stands for. -/
def ofTag (tag : Int32) : Except Fault Status :=
  if tag = 0 then .ok vacant
  else if tag = 1 then .ok new
  else if tag = 2 then .ok locked
  else if tag = 3 then .ok deleted
  else .error (.corruption (.unknownStatus tag))

/-- Whether a message of this status is in the queue. -/
def isLive : Status → Bool
  | new | locked => true
  | vacant | deleted => false

/-- The name under which a status is shown. -/
def name : Status → String
  | vacant => "None"
  | new => "New"
  | locked => "Locked"
  | deleted => "Deleted"

/-- The status of this name. -/
def ofName? (name : String) : Option Status :=
  [vacant, new, locked, deleted].find? fun status => status.name = name

@[simp]
theorem ofTag_tag (status : Status) : ofTag status.tag = .ok status := by
  cases status <;> rfl

end Status

/-- One record, every field as it is stored. -/
structure Record where
  high : UInt64
  low : UInt64
  offset : Int64
  status : Int32
  length : Int32
  kind : Int32
  deriving DecidableEq, Repr

namespace Record

/-- The number of bytes of a record. -/
def size : Nat := 36

/-- The number of bytes of the count in front of the records. -/
def countSize : Nat := 4

/-- Where the bytes of the status begin inside a record. -/
def statusOffset : Nat := 24

/-- Where the record of a position begins in the file. -/
def place (position : Nat) : Nat := countSize + position * size

/-- The record of a slot that was never written. -/
def empty : Record := ⟨0, 0, 0, 0, 0, 0⟩

/-- The record of a message; the place and the length of its payload are reinterpreted as signed
words. -/
def make (uuid : Uuid) (offset : UInt64) (length : UInt32) (status : Status) (kind : Int32) :
    Record where
  high := uuid.high
  low := uuid.low
  offset := offset.toInt64
  status := status.tag
  length := length.toInt32
  kind := kind

/-- The identity of the message. -/
def uuid (r : Record) : Uuid := Uuid.ofHalves r.high r.low

/-- Whether the slot was never written: both halves of the UUID are zero. -/
def isEmpty (r : Record) : Bool := r.high == 0 && r.low == 0

/-- The bytes of a record. -/
def encode (r : Record) : List UInt8 :=
  encodeUInt64 r.high ++ encodeUInt64 r.low ++ encodeInt64 r.offset ++ encodeInt32 r.status
    ++ encodeInt32 r.length ++ encodeInt32 r.kind

/-- The record that these bytes hold, if they are as many as a record has. -/
def decode (bytes : List UInt8) : Except Fault Record :=
  let field (start width : Nat) : List UInt8 := (bytes.drop start).take width
  if bytes.length ≠ size then .error (.corruption (.recordSize bytes.length))
  else .ok {
    high := decodeUInt64 (field 0 8)
    low := decodeUInt64 (field 8 8)
    offset := decodeInt64 (field 16 8)
    status := decodeInt32 (field 24 4)
    length := decodeInt32 (field 28 4)
    kind := decodeInt32 (field 32 4) }

@[simp]
theorem length_encode (r : Record) : r.encode.length = size := by
  simp [encode, size]

end Record

end PagedQueue
