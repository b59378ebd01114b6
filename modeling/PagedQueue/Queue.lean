import PagedQueue.Index.Recovery
import PagedQueue.Index.Transition
import PagedQueue.PayloadLog
import PagedQueue.Settings

/-!
# The queue

A queue binds a payload log and a message index, each in a directory of its own. A push writes the
payload, then the record, then the count over the record, so that whatever the count covers has its
payload. The state of a message is moved by the index; the operations here read the payload along
and force bytes out as the durability policy asks.

A closed queue refuses all operations on messages. How many messages it has, and what it occupies on
disk, can still be asked.
-/

namespace PagedQueue

/-- What a queue occupies on disk, and where the next payload will be put. -/
structure Footprint where
  recordPages : Nat
  payloadPages : Nat
  recordBytes : Nat
  payloadBytes : Nat
  cursor : Nat
  deriving DecidableEq, Repr

/-- A queue of messages on disk. -/
structure Queue where
  settings : Settings
  payloads : PayloadLog
  index : MessageIndex
  /-- Changes since bytes were last forced out for their number. -/
  changes : Nat := 0
  isClosed : Bool := false

namespace Queue

open Procedure

/-- A procedure on the payload log of a queue. -/
def onPayloads {α : Type} : Procedure PayloadLog α → Procedure Queue α :=
  within payloads fun payloads queue => { queue with payloads }

/-- A procedure on the index of a queue. -/
def onIndex {α : Type} : Procedure MessageIndex α → Procedure Queue α :=
  within index fun index queue => { queue with index }

/-- A procedure on the pages that hold the records. -/
def onRecordPages {α : Type} (procedure : Procedure PageStore α) : Procedure Queue α :=
  onIndex (MessageIndex.onFile (PagedFile.onStore procedure))

/-- A procedure on the pages that hold the payloads. -/
def onPayloadPages {α : Type} (procedure : Procedure PageStore α) : Procedure Queue α :=
  onPayloads (PayloadLog.onFile (PagedFile.onStore procedure))

/-- The number of messages in the queue. -/
def size (q : Queue) : Nat := q.index.size

/-- The number of records ever written, tombstones included. -/
def recordCount (q : Queue) : Nat := q.index.count

/-- The status of a message in the queue. -/
def status? (q : Queue) (uuid : Uuid) : Option Status := q.index.status? uuid

/-- Refuses to go on with a closed queue. -/
def ensureOpen : Procedure Queue Unit := do
  if (← memory).isClosed then throw .closed

/-! ## Opening -/

/-- The directory of the records of a queue. -/
def recordDirectory (settings : Settings) : Path := Path.ofString settings.directory ++ ["meta"]

/-- The directory of the payloads of a queue. -/
def payloadDirectory (settings : Settings) : Path := Path.ofString settings.directory ++ ["data"]

/-- Opens the directories of a queue without reading what they hold. -/
def openFiles {σ : Type} (settings : Settings) : Procedure σ Queue := do
  ofExcept settings.validate
  PageStore.makeDirectories (Path.ofString settings.directory)
  let pagesIn (directory : Path) : Procedure σ PageStore :=
    PageStore.create directory settings.pageSize settings.lifetime
  let recordPages ← pagesIn (recordDirectory settings)
  let payloadPages ← pagesIn (payloadDirectory settings)
  let records ← PagedFile.ofStore recordPages
  let payloads ← PagedFile.ofStore payloadPages
  return { settings, payloads := { file := payloads }, index := { file := records } }

/-- Discards what there is and starts an empty queue. -/
def startEmpty : Procedure Queue Unit := do
  ensureOpen
  onIndex MessageIndex.startEmpty
  onPayloads PayloadLog.startEmpty
  update ({ · with changes := 0 })

/-- Rebuilds the queue from the files. Payloads go on behind all pages there are, whatever the
records say. -/
def recover : Procedure Queue Tally := do
  ensureOpen
  let tally ← onIndex MessageIndex.recover
  discard (onPayloads PayloadLog.recover)
  return tally

/-- Recovers the queue that the directories hold, or starts an empty one if there are no records. -/
def recoverOrStart : Procedure Queue Unit := do
  if (← onRecordPages PageStore.pageIndexes).isEmpty then startEmpty else discard recover

/-- Opens a queue and makes it ready for use. -/
def load {σ : Type} (settings : Settings) : Procedure σ Queue := do
  let (_, queue) ← launch (← openFiles settings) recoverOrStart
  return queue

/-! ## Forcing bytes out -/

/-- Forces the written bytes of both files out. -/
def flushFiles : Procedure Queue Unit := do
  onPayloads PayloadLog.flush
  onIndex MessageIndex.flush

/-- Forces the written bytes out. -/
def flush : Procedure Queue Unit := do
  ensureOpen
  flushFiles

/-- Does after a change what the durability policy asks for. -/
def afterChange : Procedure Queue Unit := do
  match (← memory).settings.durability with
  | .everyWrite => flushFiles
  | .everyOperations count =>
    update fun q => { q with changes := q.changes + 1 }
    if count ≤ (← memory).changes then
      update ({ · with changes := 0 })
      flushFiles
  | .manual | .interval _ => return ()

/-- Forces the written bytes of some pages out and lets those go that have been idle for too long.
-/
def checkpointPages : Procedure PageStore Unit := do
  update PageStore.flush
  discard PageStore.sweep

/-- What is done after each interval, if the durability policy names one. -/
def checkpoint : Procedure Queue Unit := do
  onRecordPages checkpointPages
  onPayloadPages checkpointPages

/-- Forces the written bytes out and closes all pages. A second time nothing happens. -/
def close : Procedure Queue Unit := do
  if (← memory).isClosed then return
  update ({ · with isClosed := true })
  onPayloads PayloadLog.close
  onIndex MessageIndex.close

/-! ## Messages -/

/-- The longest payload. -/
def maxPayload : Nat := 0x7FFFFFFF

/-- Writes a message whose UUID is reserved. -/
def store (m : Message) : Procedure Queue Unit := do
  let offset ← onPayloads (PayloadLog.append m.payload)
  discard (onIndex (MessageIndex.publish m.uuid (.ofNat offset) (.ofNat m.size) m.kind))

/-- Puts a message into the queue, and says whether it was not there already. -/
def push (m : Message) : Procedure Queue Bool := do
  ensureOpen
  if m.uuid.isNil then throw (.rejected .nilUuid)
  if maxPayload < m.size then throw (.rejected (.payloadTooLarge m.size))
  if !(← onIndex (MessageIndex.reserve m.uuid)) then return false
  tryFinally (store m) (onIndex (MessageIndex.withdraw m.uuid))
  afterChange
  return true

/-- The message of an entry, with its payload. -/
def readMessage (id : EntryId) : Procedure Queue Message := do
  let entry := (← memory).index.entry id
  let payload ← onPayloads (PayloadLog.read entry.offset.toNat entry.length.toNat)
  return { uuid := entry.uuid, kind := entry.kind, payload }

/-- The message of an entry, if there is one. -/
def readMessage? : Option EntryId → Procedure Queue (Option Message)
  | some id => return some (← readMessage id)
  | none => return none

/-- Makes a move of the index, and answers with the message it moved. -/
def change (move : Procedure MessageIndex (Option EntryId)) : Procedure Queue (Option Message) := do
  ensureOpen
  match ← onIndex move with
  | some id =>
    afterChange
    return some (← readMessage id)
  | none => return none

/-- The message of a UUID. -/
def get? (uuid : Uuid) : Procedure Queue (Option Message) := do
  ensureOpen
  readMessage? ((← memory).index.find? uuid)

/-- The oldest message that waits, which stays where it is. -/
def peek? : Procedure Queue (Option Message) := do
  ensureOpen
  readMessage? (← memory).index.oldestNew?

/-- Takes a message. -/
def lock (uuid : Uuid) : Procedure Queue (Option Message) := change (MessageIndex.lock uuid)

/-- Takes the oldest message that waits. -/
def pop : Procedure Queue (Option Message) := change MessageIndex.pop

/-- Finishes a taken message. -/
def finish (uuid : Uuid) : Procedure Queue (Option Message) := change (MessageIndex.finish uuid)

/-- Gives a taken message back. -/
def rollback (uuid : Uuid) : Procedure Queue (Option Message) := change (MessageIndex.rollback uuid)

/-! ## What there is on disk -/

/-- All records that the count covers. -/
def records : Procedure Queue (List Record) := do
  ensureOpen
  onIndex MessageIndex.records

/-- What the queue occupies on disk. -/
def footprint : Procedure Queue Footprint := do
  return {
    recordPages := (← onRecordPages PageStore.pageIndexes).size
    payloadPages := (← onPayloadPages PageStore.pageIndexes).size
    recordBytes := ← onRecordPages PageStore.totalSize
    payloadBytes := ← onPayloadPages PageStore.totalSize
    cursor := (← memory).payloads.cursor }

end Queue

end PagedQueue
