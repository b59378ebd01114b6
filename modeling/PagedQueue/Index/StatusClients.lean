import PagedQueue.Index.Clients

/-!
# Clients that store statuses

A status that was moved is stored in a section of its own. Each entry has a lock, and the client
that has it reads the status of the entry as it is by then and writes it over the one in the record.
Between the move and the section, and inside the section between the reading and the writing, other
clients may move the status on. All other steps of the calls are those of `IndexStage`.
-/

namespace PagedQueue

namespace MessageIndex

open Procedure

/-- Writes a status over the one in the record of an entry. -/
def writeStatus (id : EntryId) (status : Status) : Procedure MessageIndex Unit := do
  let position := ((← memory).entry id).position
  onFile (PagedFile.writeInt32 (Record.place position + Record.statusOffset) status.tag)

end MessageIndex

/-- An index with the locks of its entries. -/
structure SharedIndex where
  index : MessageIndex
  /-- The entries whose lock a client has. -/
  locked : List EntryId := []

/-- Where a client is in its call: the step that it takes next. -/
inductive StatusStage where
  /-- A step of the index. At `.persist` the client waits for the lock of the entry. -/
  | step (k : IndexStage)
  | readStatus (move : Move) (id : EntryId)
  /-- The status was this one. -/
  | writeStatus (move : Move) (id : EntryId) (status : Status)
  | unlock (move : Move) (id : EntryId) (answer : Except Fault Unit)

namespace StatusStage

open Procedure

/-- Where a call goes on once the status is stored, or could not be. -/
def stored (move : Move) (id : EntryId) : Except Fault Unit → IndexStage
  | .ok () => if move = .finish then .leaveLive id else .ended (.ok (some id))
  | .error fault => .ended (.error fault)

/-- A procedure on the index. -/
def onIndex {α : Type} : Procedure MessageIndex α → Procedure SharedIndex α :=
  within SharedIndex.index fun index s => { s with index }

/-- Takes the step of a stage, or waits. -/
def advance : StatusStage → Procedure SharedIndex StatusStage
  | .step (.persist move id) => do
    if id ∈ (← memory).locked then return .step (.persist move id)
    update fun s => { s with locked := id :: s.locked }
    return .readStatus move id
  | .step k => return .step (← onIndex k.advance)
  | .readStatus move id => return .writeStatus move id ((← memory).index.entry id).status
  | .writeStatus move id status =>
    tryCatch (do onIndex (MessageIndex.writeStatus id status); return .unlock move id (.ok ()))
      fun fault => return .unlock move id (.error fault)
  | .unlock move id answer => do
    update fun s => { s with locked := s.locked.erase id }
    return .step (stored move id answer)

/-- Whether an access to the pages has just failed. -/
def hasFailed : StatusStage → Bool
  | .step k => k.hasFailed
  | .unlock _ _ (.error _) => true
  | _ => false

/-- Whether a client is in no call. -/
def isFree : StatusStage → Bool
  | .step (.ended _) => true
  | _ => false

end StatusStage

namespace SharedIndex

/-- How clients share an index whose statuses are stored under locks. -/
def protocol : Protocol SharedIndex IndexCall StatusStage where
  start call := .step (IndexStage.start call)
  advance := StatusStage.advance
  fail fault := .step (.ended (.error fault))
  isFree := StatusStage.isFree

/-- Clients of an index, none of which is in a call. -/
def unused (s : Session MessageIndex) : Crowd SharedIndex StatusStage :=
  ⟨⟨s.host, { index := s.memory }⟩, fun _ => .step (.ended (.ok none))⟩

end SharedIndex

end PagedQueue
