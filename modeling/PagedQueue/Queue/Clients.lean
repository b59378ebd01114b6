import PagedQueue.PayloadLog.Clients
import PagedQueue.Queue

/-!
# Clients that push

A push cut into the steps that happen at once when clients share a queue: its UUID is noted, its
payload gets a place, which is written one page after the other, it takes a position, its record is
written one page after the other, the count is raised, and it enters the two indexes. If the process
dies between two steps, what is on disk is what the steps before have written.
-/

namespace PagedQueue

/-- Where a client is in its push: the step that it takes next. -/
inductive PushStage where
  | check (m : Message)
  | notePending (m : Message)
  | checkLive (m : Message)
  /-- A message of the UUID is in the queue. -/
  | refuse (uuid : Uuid)
  | reservePlace (m : Message)
  /-- So many bytes of the payload are written. -/
  | writePayload (m : Message) (offset written : Nat)
  | takePosition (m : Message) (offset : Nat)
  /-- So many bytes of the record are written. -/
  | writeRecord (entry : Entry) (id : EntryId) (written : Nat)
  | raiseCount (entry : Entry) (id : EntryId)
  | enterLive (entry : Entry) (id : EntryId)
  | enterOrdered (entry : Entry) (id : EntryId)
  /-- The message is stored, or it could not be. -/
  | withdraw (uuid : Uuid) (answer : Except Fault Unit)
  | settle
  /-- The push is over. -/
  | ended (answer : Except Fault Bool)

namespace PushStage

open Procedure
open Queue (onIndex onPayloads)

/-- The entry of a message whose payload begins at an offset. -/
def entryOf (m : Message) (offset position : Nat) : Entry where
  uuid := m.uuid
  offset := .ofNat offset
  length := .ofNat m.size
  kind := m.kind
  position := position
  status := .new

/-- A fault while a message is stored ends its reservation before it ends the push. -/
def guarded (uuid : Uuid) (p : Procedure Queue PushStage) : Procedure Queue PushStage :=
  tryCatch p fun fault => return .withdraw uuid (.error fault)

/-- Takes the step of a stage. -/
def advance : PushStage → Procedure Queue PushStage
  | .check m => do
    Queue.ensureOpen
    if m.uuid.isNil then throw (.rejected .nilUuid)
    if Queue.maxPayload < m.size then throw (.rejected (.payloadTooLarge m.size))
    return .notePending m
  | .notePending m => do
    if ← onIndex (MessageIndex.notePending m.uuid) then return .checkLive m
    return .ended (.ok false)
  | .checkLive m => do
    if (← memory).index.live.contains m.uuid then return .refuse m.uuid
    return .reservePlace m
  | .refuse uuid => do
    onIndex (MessageIndex.withdraw uuid)
    return .ended (.ok false)
  | .reservePlace m => return .writePayload m (← onPayloads (PayloadLog.reserve m.size)) 0
  | .writePayload m offset written => guarded m.uuid do
    if written < m.size then
      let length ← onPayloads (PayloadLog.onFile
        (PagedFile.writeFirst (offset + written) (m.payload.drop written)))
      return .writePayload m offset (written + length)
    onPayloads (PayloadLog.onFile (PagedFile.markWritten (offset + written)))
    return .takePosition m offset
  | .takePosition m offset => do
    let entry := entryOf m offset (← onIndex MessageIndex.takePosition)
    return .writeRecord entry (← onIndex (MessageIndex.addEntry entry)) 0
  | .writeRecord e id written => guarded e.uuid do
    if written < Record.size then
      let length ← onIndex (MessageIndex.onFile
        (PagedFile.writeFirst (Record.place e.position + written) (e.toRecord.encode.drop written)))
      return .writeRecord e id (written + length)
    onIndex (MessageIndex.onFile (PagedFile.markWritten (Record.place e.position + written)))
    return .raiseCount e id
  | .raiseCount e id => guarded e.uuid do
    onIndex (MessageIndex.raiseCount (e.position + 1))
    return .enterLive e id
  | .enterLive e id => do
    onIndex (MessageIndex.enterLive e.uuid id)
    return .enterOrdered e id
  | .enterOrdered e id => do
    onIndex (MessageIndex.enterOrdered e.position id)
    return .withdraw e.uuid (.ok ())
  | .withdraw uuid answer => do
    onIndex (MessageIndex.withdraw uuid)
    match answer with
    | .ok () => return .settle
    | .error fault => return .ended (.error fault)
  | .settle => do
    Queue.afterChange
    return .ended (.ok true)
  | .ended answer => return .ended answer

end PushStage

/-- How clients push into a queue. A client whose push is over can push again. -/
def Queue.pushing : Protocol Queue Message PushStage where
  start := PushStage.check
  advance := PushStage.advance
  fail fault := .ended (.error fault)
  isFree
    | .ended _ => true
    | _ => false

/-- Clients of a queue, none of which is in a push. -/
def Queue.unused (s : Session Queue) : Crowd Queue PushStage := ⟨s, fun _ => .ended (.ok true)⟩

end PagedQueue
