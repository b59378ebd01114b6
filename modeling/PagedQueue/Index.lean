import Std.Data.TreeMap.Basic
import Std.Data.TreeSet.Basic
import PagedQueue.Index.Entry
import PagedQueue.PagedFile

/-!
# The message index

The index keeps the records of all messages in a paged file, behind a count, and the entries of the
messages in the queue in memory: by UUID (`live`) and in the order of creation (`ordered`). Both
name entries by their place in the table of all entries ever made (`EntryId`), so that a change of
status shows through both, and through any entry that a client still holds.

A message enters in single steps (`publish`): it takes a position, its record is written, the count
is raised over it, and last it enters the two indexes. A reservation of its UUID keeps a second push
of the same message out meanwhile (`reserve`, `withdraw`). A step that fails leaves what was done
before it; positions are not given back.
-/

namespace PagedQueue

/-- Which entry of an index. -/
abbrev EntryId := Nat

/-- The records of a queue and the entries of its messages. -/
structure MessageIndex where
  file : PagedFile
  /-- Every entry ever made. -/
  entries : Array Entry := #[]
  /-- The messages in the queue by UUID. -/
  live : Std.TreeMap Uuid EntryId := {}
  /-- The messages in the queue by position. -/
  ordered : Std.TreeMap Nat EntryId := {}
  /-- The UUIDs whose push is under way. -/
  pending : Std.TreeSet Uuid := {}
  /-- The next position. -/
  next : Nat := 0
  /-- How many records the count in the file covers. -/
  count : Nat := 0

namespace MessageIndex

open Procedure

/-- The entry with this number in the table. -/
def entry (s : MessageIndex) (id : EntryId) : Entry := s.entries.getD id default

/-- The number of messages in the queue. -/
def size (s : MessageIndex) : Nat := s.live.size

/-- The message of this UUID, if it is in the queue. -/
def find? (s : MessageIndex) (uuid : Uuid) : Option EntryId :=
  s.live[uuid]?.filter fun id => (s.entry id).status.isLive

/-- The status of a message in the queue. -/
def status? (s : MessageIndex) (uuid : Uuid) : Option Status :=
  (s.find? uuid).map fun id => (s.entry id).status

/-- The oldest message that waits to be taken. -/
def oldestNew? (s : MessageIndex) : Option EntryId :=
  s.ordered.values.find? fun id => (s.entry id).status = .new

/-- A procedure on the file of an index. -/
def onFile {α : Type} : Procedure PagedFile α → Procedure MessageIndex α :=
  within file fun file index => { index with file }

/-! ## Records -/

/-- Writes the record of a position. -/
def writeRecord (record : Record) (position : Nat) : Procedure MessageIndex Unit :=
  onFile (PagedFile.writeBytes (Record.place position) record.encode)

/-- Reads the record of a position. -/
def readRecord (position : Nat) : Procedure MessageIndex Record := do
  ofExcept (Record.decode (← onFile (PagedFile.readBytes (Record.place position) Record.size)))

/-- Reads the record of a position that the count covers. -/
def recordAt? (position : Nat) : Procedure MessageIndex (Option Record) := do
  if (← memory).count ≤ position then return none
  return some (← readRecord position)

/-- Reads all records that the count covers. -/
def records : Procedure MessageIndex (List Record) := do
  (List.range (← memory).count).mapM readRecord

/-- Raises the count in the file. It never sinks. -/
def raiseCount (count : Nat) : Procedure MessageIndex Unit := do
  if (← memory).count < count then
    onFile (PagedFile.writeInt32 0 (Int32.ofNat count))
    update ({ · with count })

/-- Writes the status of an entry over the one in its record. -/
def persistStatus (id : EntryId) : Procedure MessageIndex Unit := do
  let entry := (← memory).entry id
  onFile (PagedFile.writeInt32 (Record.place entry.position + Record.statusOffset) entry.status.tag)

/-! ## Entering messages -/

/-- Notes that a push of a UUID is under way, and says whether none was before. -/
def notePending (uuid : Uuid) : Procedure MessageIndex Bool := do
  if (← memory).pending.contains uuid then return false
  update fun s => { s with pending := s.pending.insert uuid }
  return true

/-- Withdraws the reservation of a UUID. -/
def withdraw (uuid : Uuid) : Procedure MessageIndex Unit :=
  update fun s => { s with pending := s.pending.erase uuid }

/-- Reserves a UUID for a push, and says whether that was possible: a message of this UUID that is
in the queue or being pushed keeps another one out. -/
def reserve (uuid : Uuid) : Procedure MessageIndex Bool := do
  if !(← notePending uuid) then return false
  if (← memory).live.contains uuid then
    withdraw uuid
    return false
  return true

/-- Takes the next position. -/
def takePosition : Procedure MessageIndex Nat := do
  let position := (← memory).next
  update fun s => { s with next := position + 1 }
  return position

/-- Adds an entry to the table. -/
def addEntry (entry : Entry) : Procedure MessageIndex EntryId := do
  let id := (← memory).entries.size
  update fun s => { s with entries := s.entries.push entry }
  return id

/-- Makes a message known by its UUID. -/
def enterLive (uuid : Uuid) (id : EntryId) : Procedure MessageIndex Unit :=
  update fun s => { s with live := s.live.insert uuid id }

/-- Puts a message into the order of creation. -/
def enterOrdered (position : Nat) (id : EntryId) : Procedure MessageIndex Unit :=
  update fun s => { s with ordered := s.ordered.insert position id }

/-- Enters a message whose payload is already written. -/
def publish (uuid : Uuid) (offset : UInt64) (length : UInt32) (kind : Kind) :
    Procedure MessageIndex EntryId := do
  let position ← takePosition
  let entry : Entry := { uuid, offset, length, kind, position, status := .new }
  let id ← addEntry entry
  writeRecord entry.toRecord position
  raiseCount (position + 1)
  enterLive uuid id
  enterOrdered position id
  return id

/-- Enters a message under a reservation, which ends with it. -/
def push (uuid : Uuid) (offset : UInt64) (length : UInt32) (kind : Kind) :
    Procedure MessageIndex EntryId :=
  tryFinally (publish uuid offset length kind) (withdraw uuid)

/-! ## Forcing out and closing -/

/-- Forces the written bytes out. -/
def flush : Procedure MessageIndex Unit := onFile PagedFile.flush

/-- Forces the written bytes out and closes all pages. -/
def close : Procedure MessageIndex Unit := onFile PagedFile.close

end MessageIndex

end PagedQueue
