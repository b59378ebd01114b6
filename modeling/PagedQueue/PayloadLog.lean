import PagedQueue.PagedFile

/-!
# Payload logs

A payload log keeps payloads one behind the other and never writes any byte twice. A payload takes
its place before it is written (`append`), so that no two payloads overlap even if writing one of
them fails: then its place stays a gap.
-/

namespace PagedQueue

/-- Payloads in a paged file. -/
structure PayloadLog where
  file : PagedFile
  /-- Where the next payload will be put. -/
  cursor : Nat := 0

namespace PayloadLog

open Procedure

/-- A procedure on the file of a payload log. -/
def onFile {α : Type} : Procedure PagedFile α → Procedure PayloadLog α :=
  within file fun file log => { log with file }

/-- Starts from an empty file. -/
def startEmpty : Procedure PayloadLog Unit := do
  onFile PagedFile.reset
  update ({ · with cursor := 0 })

/-- Goes on behind all pages on disk, and says where that is. -/
def recover : Procedure PayloadLog Nat := do
  let length ← onFile PagedFile.recoverLength
  update ({ · with cursor := length })
  return length

/-- Takes the place for a payload of this length. -/
def reserve (length : Nat) : Procedure PayloadLog Nat := do
  let offset := (← memory).cursor
  update fun log => { log with cursor := offset + length }
  return offset

/-- Appends a payload and says where it begins. -/
def append (payload : List UInt8) : Procedure PayloadLog Nat := do
  let offset ← reserve payload.length
  onFile (PagedFile.writeBytes offset payload)
  return offset

/-- Reads bytes at an offset. -/
def read (offset length : Nat) : Procedure PayloadLog (List UInt8) :=
  onFile (PagedFile.readBytes offset length)

/-- Forces the written bytes out. -/
def flush : Procedure PayloadLog Unit := onFile PagedFile.flush

/-- Forces the written bytes out and closes all pages. -/
def close : Procedure PayloadLog Unit := onFile PagedFile.close

end PayloadLog

end PagedQueue
