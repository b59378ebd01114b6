import PagedQueue.Record

/-!
# Entries

An entry is what the index keeps in memory about one message. All of it but the status stays as it
was written. A record becomes an entry only if its message is in the queue; `Slot.ofRecord` says
what any record means.
-/

namespace PagedQueue

/-- What the index keeps of one message. -/
structure Entry where
  uuid : Uuid
  /-- Where the payload begins in the payload log. -/
  offset : UInt64
  length : UInt32
  kind : Kind
  /-- The order of creation, and the slot of the record. -/
  position : Nat
  status : Status
  deriving DecidableEq, Inhabited

namespace Entry

/-- The record of an entry. -/
def toRecord (e : Entry) : Record := Record.make e.uuid e.offset e.length e.status e.kind.tag

/-- A summary of an entry. -/
def describe (e : Entry) : String :=
  let uuid := e.uuid.render
  let kind := e.kind.name
  let status := e.status.name
  s!"MessageMeta \x7b uuid: {uuid}, offset: {e.offset}, length: {e.length}, kind: {kind}, "
    ++ s!"position: {e.position}, status: {status} \x7d"

/-- The entry of a live record. The extent of the payload is checked before the kind. -/
def ofRecord (r : Record) (position : Nat) (status : Status) : Except Fault Entry :=
  if r.offset < 0 ∨ r.length < 0 then
    .error (.corruption (.negativeExtent position r.offset r.length))
  else do
    let kind ← Kind.ofTag r.kind
    return {
      uuid := r.uuid
      offset := r.offset.toUInt64
      length := r.length.toUInt32
      kind
      position
      status }

end Entry

/-- What a record means. -/
inductive Slot where
  /-- Nothing was written, or not to the end. -/
  | vacant
  /-- The message is finished. -/
  | tombstone
  /-- The message is in the queue. -/
  | live (entry : Entry)
  deriving DecidableEq

/-- The meaning of the record at a position. A record without UUID is vacant whatever else it holds;
only live records have their other fields checked. -/
def Slot.ofRecord (r : Record) (position : Nat) : Except Fault Slot :=
  if r.isEmpty then .ok .vacant
  else do
    match ← Status.ofTag r.status with
    | .vacant => return .vacant
    | .deleted => return .tombstone
    | .new => return .live (← Entry.ofRecord r position .new)
    | .locked => return .live (← Entry.ofRecord r position .locked)

end PagedQueue
