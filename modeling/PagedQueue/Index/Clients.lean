import PagedQueue.Clients
import PagedQueue.Index.Transition

/-!
# Clients of the index

The calls of an index, cut into the steps that happen at once when clients share it: the UUIDs under
push and the two indexes are changed by one entry at a time, a position is taken, a record is
written, the count is raised, and a status is moved if it is the expected one. Nothing holds what a
step has found until the next one: between the two the index may become another.

The oldest waiting message is looked for in the order of creation as it was when the search began.
-/

namespace PagedQueue

/-- What the index is told of a message that enters. -/
structure Draft where
  uuid : Uuid
  offset : UInt64
  length : UInt32
  kind : Kind
  deriving DecidableEq

/-- The entry of a message at its position. -/
def Draft.entry (d : Draft) (position : Nat) : Entry :=
  { uuid := d.uuid, offset := d.offset, length := d.length, kind := d.kind, position,
    status := .new }

/-- A move of the status of a message. -/
inductive Move where
  | lock
  | rollback
  | finish
  deriving DecidableEq

namespace Move

/-- The status from which it goes. -/
def source : Move → Status
  | lock => .new
  | rollback | finish => .locked

/-- The status to which it goes. -/
def target : Move → Status
  | lock => .locked
  | rollback => .new
  | finish => .deleted

/-- The call that makes this move of the message of a UUID. -/
def procedure : Move → Uuid → Procedure MessageIndex (Option EntryId)
  | lock => MessageIndex.lock
  | rollback => MessageIndex.rollback
  | finish => MessageIndex.finish

end Move

/-- What a client asks of the index. -/
inductive IndexCall where
  | push (draft : Draft)
  | move (move : Move) (uuid : Uuid)
  | pop
  deriving DecidableEq

namespace IndexCall

open MessageIndex

/-- What the index does at a call that no other client disturbs. -/
def procedure : IndexCall → Procedure MessageIndex (Option EntryId)
  | .push d => do
    if ← reserve d.uuid then return some (← MessageIndex.push d.uuid d.offset d.length d.kind)
    return none
  | .move m uuid => m.procedure uuid
  | .pop => MessageIndex.pop

end IndexCall

/-- Where a client is in its call: the step that it takes next. -/
inductive IndexStage where
  | notePending (draft : Draft)
  | checkLive (draft : Draft)
  /-- A message of the UUID is in the queue. -/
  | refuse (uuid : Uuid)
  | takePosition (draft : Draft)
  | writeRecord (entry : Entry) (id : EntryId)
  | raiseCount (entry : Entry) (id : EntryId)
  | enterLive (entry : Entry) (id : EntryId)
  | enterOrdered (entry : Entry) (id : EntryId)
  /-- The push is through or has failed. -/
  | withdraw (uuid : Uuid) (answer : Except Fault EntryId)
  | lookUp (move : Move) (uuid : Uuid)
  | checkStatus (move : Move) (id : EntryId)
  | setStatus (move : Move) (id : EntryId)
  /-- The status was moved. -/
  | persist (move : Move) (id : EntryId)
  | leaveLive (id : EntryId)
  | leaveOrdered (id : EntryId)
  | listOrdered
  | takeFirst (ids : List EntryId)
  /-- The call is over. -/
  | ended (answer : Except Fault (Option EntryId))

namespace IndexStage

open Procedure

/-- Where a call begins. -/
def start : IndexCall → IndexStage
  | .push draft => .notePending draft
  | .move move uuid => .lookUp move uuid
  | .pop => .listOrdered

/-- A fault while a message enters ends its reservation before it ends the call. -/
def guarded (uuid : Uuid) (p : Procedure MessageIndex Unit) (next : IndexStage) :
    Procedure MessageIndex IndexStage :=
  tryCatch (do p; return next) fun fault => return .withdraw uuid (.error fault)

/-- Takes the step of a stage. -/
def advance : IndexStage → Procedure MessageIndex IndexStage
  | .notePending d => do
    if ← MessageIndex.notePending d.uuid then return .checkLive d
    return .ended (.ok none)
  | .checkLive d => do
    if (← memory).live.contains d.uuid then return .refuse d.uuid
    return .takePosition d
  | .refuse uuid => do
    MessageIndex.withdraw uuid
    return .ended (.ok none)
  | .takePosition d => do
    let entry := d.entry (← MessageIndex.takePosition)
    return .writeRecord entry (← MessageIndex.addEntry entry)
  | .writeRecord e id =>
    guarded e.uuid (MessageIndex.writeRecord e.toRecord e.position) (.raiseCount e id)
  | .raiseCount e id =>
    guarded e.uuid (MessageIndex.raiseCount (e.position + 1)) (.enterLive e id)
  | .enterLive e id => do
    MessageIndex.enterLive e.uuid id
    return .enterOrdered e id
  | .enterOrdered e id => do
    MessageIndex.enterOrdered e.position id
    return .withdraw e.uuid (.ok id)
  | .withdraw uuid answer => do
    MessageIndex.withdraw uuid
    return .ended (answer.map some)
  | .lookUp move uuid => do
    match (← memory).live[uuid]? with
    | some id => return .checkStatus move id
    | none => return .ended (.ok none)
  | .checkStatus move id => do
    if ((← memory).entry id).status.isLive then return .setStatus move id
    return .ended (.ok none)
  | .setStatus move id => do
    if ← MessageIndex.compareAndSet id move.source move.target then return .persist move id
    return .ended (.ok none)
  | .persist move id => do
    MessageIndex.persistStatus id
    return if move = .finish then .leaveLive id else .ended (.ok (some id))
  | .leaveLive id => do
    MessageIndex.leaveLive id
    return .leaveOrdered id
  | .leaveOrdered id => do
    MessageIndex.leaveOrdered id
    return .ended (.ok (some id))
  | .listOrdered => return .takeFirst (← memory).ordered.values
  | .takeFirst [] => return .ended (.ok none)
  | .takeFirst (id :: rest) => do
    if ← MessageIndex.compareAndSet id .new .locked then return .persist .lock id
    return .takeFirst rest
  | .ended answer => return .ended answer

/-- Whether an access to the pages has just failed. -/
def hasFailed : IndexStage → Bool
  | .withdraw _ (.error _) | .ended (.error _) => true
  | _ => false

end IndexStage

/-- How clients share an index. A client whose call is over can make any call. -/
def MessageIndex.protocol : Protocol MessageIndex IndexCall IndexStage where
  start := IndexStage.start
  advance := IndexStage.advance
  fail fault := .ended (.error fault)
  isFree
    | .ended _ => true
    | _ => false

/-- Clients of an index, none of which is in a call. -/
def MessageIndex.unused (s : Session MessageIndex) : Crowd MessageIndex IndexStage :=
  ⟨s, fun _ => .ended (.ok none)⟩

end PagedQueue
