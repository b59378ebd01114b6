import PagedQueue.Index

/-!
# Changes of status

A message is taken (`lock`, `pop`), and then finished or given back. Each of these moves the status
of one entry from an expected value to another in a single step (`compareAndSet`), and only then
writes it to the record. Of several clients that try the same move at once one succeeds.
-/

namespace PagedQueue.MessageIndex

open Procedure

/-- Moves the status of an entry, and says whether it was the expected one. -/
def compareAndSet (id : EntryId) (expected status : Status) : Procedure MessageIndex Bool := do
  if ((← memory).entry id).status = expected then
    update fun s => { s with entries := s.entries.modify id ({ · with status }) }
    return true
  return false

/-- Moves the status of the message of a UUID, in memory and in its record. -/
def transition (uuid : Uuid) (expected status : Status) : Procedure MessageIndex (Option EntryId) :=
  do
  match (← memory).find? uuid with
  | none => return none
  | some id =>
    if ← compareAndSet id expected status then
      persistStatus id
      return some id
    return none

/-- Takes a message. -/
def lock (uuid : Uuid) : Procedure MessageIndex (Option EntryId) := transition uuid .new .locked

/-- Gives a taken message back. -/
def rollback (uuid : Uuid) : Procedure MessageIndex (Option EntryId) := transition uuid .locked .new

/-- Makes a message unknown by its UUID, unless the UUID belongs to another message by now. -/
def leaveLive (id : EntryId) : Procedure MessageIndex Unit := do
  let uuid := ((← memory).entry id).uuid
  if (← memory).live[uuid]? = some id then
    update fun s => { s with live := s.live.erase uuid }

/-- Takes a message out of the order of creation. -/
def leaveOrdered (id : EntryId) : Procedure MessageIndex Unit := do
  let position := ((← memory).entry id).position
  update fun s => { s with ordered := s.ordered.erase position }

/-- Finishes a taken message. Its record stays as a tombstone. -/
def finish (uuid : Uuid) : Procedure MessageIndex (Option EntryId) := do
  match ← transition uuid .locked .deleted with
  | none => return none
  | some id =>
    leaveLive id
    leaveOrdered id
    return some id

/-- Takes the first of these messages that waits. -/
def takeFirst : List EntryId → Procedure MessageIndex (Option EntryId)
  | [] => return none
  | id :: rest => do
    if ← compareAndSet id .new .locked then
      persistStatus id
      return some id
    takeFirst rest

/-- Takes the oldest message that waits. -/
def pop : Procedure MessageIndex (Option EntryId) := do
  takeFirst (← memory).ordered.values

end PagedQueue.MessageIndex
