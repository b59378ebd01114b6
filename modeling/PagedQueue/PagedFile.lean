import PagedQueue.Page.Catalog
import PagedQueue.Page.Span
import PagedQueue.Word

/-!
# Paged files

A paged file is one growing space of bytes spread over the pages of a store: the byte at an offset
lies in the page whose number is the offset divided by the page size. An access is cut into pieces,
one for each page it touches, and each page is held only while its piece is read or written. So a
failure in the middle of a write leaves the earlier pieces written.

The length is how far the file was written. It grows with each completed write; after opening it is
rounded up to whole pages, since the names of the page files are all that tells it then.
-/

namespace PagedQueue

/-- A space of bytes over a page store. -/
structure PagedFile where
  store : PageStore
  /-- How far the file was written. -/
  length : Nat := 0

namespace PagedFile

open Procedure

/-- A procedure on the page store of a file. -/
def onStore {α : Type} : Procedure PageStore α → Procedure PagedFile α :=
  within store fun store file => { file with store }

/-- Notes that the file was written up to an offset. -/
def markWritten (stop : Nat) : Procedure PagedFile Unit :=
  update fun file => { file with length := max file.length stop }

/-- Sets the length to the end of the last page on disk. -/
def recoverLength : Procedure PagedFile Nat := do
  let indexes ← onStore PageStore.pageIndexes
  let file ← memory
  let length := match IndexSet.greatest indexes with
    | some last => (last + 1) * file.store.pageSize
    | none => 0
  update ({ · with length })
  return length

/-- The file over a page store, with the length that the pages on disk tell. -/
def ofStore {σ : Type} (store : PageStore) : Procedure σ PagedFile := do
  let (_, file) ← launch { store } recoverLength
  return file

/-- Deletes all pages; the file is empty again. -/
def reset : Procedure PagedFile Unit := do
  onStore PageStore.deleteAll
  update ({ · with length := 0 })

/-! ## Bytes -/

/-- Writes bytes piece by piece. -/
def writePieces : List Piece → List UInt8 → Procedure PageStore Unit
  | [], _ => return ()
  | piece :: rest, bytes => do
    PageStore.withPage piece.index fun id =>
      PageStore.writePage id piece.start (bytes.take piece.length)
    writePieces rest (bytes.drop piece.length)

/-- Reads bytes piece by piece. -/
def readPieces : List Piece → Procedure PageStore (List UInt8)
  | [] => return []
  | piece :: rest => do
    let bytes ← PageStore.withPage piece.index fun id =>
      PageStore.readPage id piece.start piece.length
    return bytes ++ (← readPieces rest)

/-- Writes bytes at an offset. -/
def writeBytes (start : Nat) (bytes : List UInt8) : Procedure PagedFile Unit := do
  let store := (← memory).store
  onStore (writePieces (pieces store.pageSize store.pageSize_pos start bytes.length) bytes)
  markWritten (start + bytes.length)

/-- Reads bytes at an offset. -/
def readBytes (start length : Nat) : Procedure PagedFile (List UInt8) := do
  let store := (← memory).store
  onStore (readPieces (pieces store.pageSize store.pageSize_pos start length))

/-! ## Words

A word that lies inside one page is read and written in one access to it. -/

/-- Writes the bytes of a word at an offset. -/
def writeWord (start : Nat) (bytes : List UInt8) : Procedure PagedFile Unit := do
  let pageSize := (← memory).store.pageSize
  if InOnePage pageSize start bytes.length then
    onStore (PageStore.withPage (start / pageSize) fun id => PageStore.writePage id start bytes)
    markWritten (start + bytes.length)
  else writeBytes start bytes

/-- Reads the bytes of a word at an offset. -/
def readWord (start length : Nat) : Procedure PagedFile (List UInt8) := do
  let pageSize := (← memory).store.pageSize
  if InOnePage pageSize start length then
    onStore (PageStore.withPage (start / pageSize) fun id => PageStore.readPage id start length)
  else readBytes start length

/-- Writes a word of 64 bits. -/
def writeInt64 (start : Nat) (value : Int64) : Procedure PagedFile Unit :=
  writeWord start (encodeInt64 value)

/-- Reads a word of 64 bits. -/
def readInt64 (start : Nat) : Procedure PagedFile Int64 :=
  return decodeInt64 (← readWord start 8)

/-- Writes a word of 32 bits. -/
def writeInt32 (start : Nat) (value : Int32) : Procedure PagedFile Unit :=
  writeWord start (encodeInt32 value)

/-- Reads a word of 32 bits. -/
def readInt32 (start : Nat) : Procedure PagedFile Int32 :=
  return decodeInt32 (← readWord start 4)

/-! ## Forcing out and closing -/

/-- Forces the written bytes of all pages in the cache out. -/
def flush : Procedure PagedFile Unit :=
  update fun file => { file with store := file.store.flush }

/-- Forces the written bytes out and closes all pages. -/
def close : Procedure PagedFile Unit := do
  flush
  update fun file => { file with store := file.store.dropAll }

end PagedFile

end PagedQueue
