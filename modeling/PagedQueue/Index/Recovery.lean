import PagedQueue.Index

/-!
# Recovery of the index

The index is rebuilt from the records that the count covers, in order. A live record enters both
indexes unless an earlier one has its UUID; vacant slots and tombstones stay out. A record that
makes no sense stops the recovery: then the messages read so far are known by UUID, and the order of
creation is empty.
-/

namespace PagedQueue

/-- What a recovery found. -/
structure Tally where
  /-- How many records the count covers. -/
  records : Nat := 0
  /-- Messages that wait. -/
  new : Nat := 0
  /-- Messages that are taken. -/
  locked : Nat := 0
  /-- Tombstones. -/
  deleted : Nat := 0
  /-- Slots without a message. -/
  vacant : Nat := 0
  /-- Live records whose UUID an earlier one has. -/
  duplicates : Nat := 0
  deriving DecidableEq, Repr

namespace MessageIndex

open Procedure

/-- Starts with an empty file and no messages. -/
def startEmpty : Procedure MessageIndex Unit := do
  update fun s => { s with live := {}, ordered := {} }
  onFile PagedFile.reset
  onFile (PagedFile.writeInt32 0 0)
  update fun s => { s with count := 0, next := 0 }

/-- Reads the count of the file. It may cover no more than the file holds. -/
def readCount : Procedure MessageIndex Nat := do
  let held := (← memory).file.length
  if held = 0 then return 0
  let count ← onFile (PagedFile.readInt32 0)
  if count < 0 then throw (.corruption (.negativeCount count))
  let needed := Record.place count.toInt.toNat
  if held < needed then
    throw (.corruption (.countBeyondFile count.toInt.toNat needed held))
  return count.toInt.toNat

/-- Counts the record of a position and enters its message by UUID. The order found so far is handed
on. -/
def recoverRecord (found : Tally × Std.TreeMap Nat EntryId) (position : Nat) :
    Procedure MessageIndex (Tally × Std.TreeMap Nat EntryId) := do
  let (tally, ordered) := found
  match ← ofExcept (Slot.ofRecord (← readRecord position) position) with
  | .vacant => return ({ tally with vacant := tally.vacant + 1 }, ordered)
  | .tombstone => return ({ tally with deleted := tally.deleted + 1 }, ordered)
  | .live entry =>
    if (← memory).live.contains entry.uuid then
      return ({ tally with duplicates := tally.duplicates + 1 }, ordered)
    let id ← addEntry entry
    enterLive entry.uuid id
    let tally :=
      if entry.status = .locked then { tally with locked := tally.locked + 1 }
      else { tally with new := tally.new + 1 }
    return (tally, ordered.insert position id)

/-- Rebuilds the indexes from the file. -/
def recover : Procedure MessageIndex Tally := do
  update fun s => { s with live := {}, ordered := {} }
  discard (onFile PagedFile.recoverLength)
  let count ← readCount
  let (tally, ordered) ← (List.range count).foldlM recoverRecord ({ records := count }, {})
  update fun s => { s with ordered, count, next := count }
  return tally

end MessageIndex

end PagedQueue
