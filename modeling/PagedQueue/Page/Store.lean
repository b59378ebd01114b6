import Std.Data.TreeMap.Basic
import PagedQueue.Procedure
import PagedQueue.Page
import PagedQueue.Page.Name

/-!
# Page stores

A page store maps the page files of one directory on demand and keeps the pages for reuse. A page is
handed out with one user counted (`acquire`), who gives it back (`giveBack`, or `release` by the
number of the page). Pages that nobody uses are let go when they have been idle for the lifetime of
the store; a sweep for them follows each new mapping.

Pages are told apart by their place in the table of all pages ever mapped (`PageId`). The cache says
which page currently stands for a number: a page that left it may still have users, and then a newer
page of the same number is another page.

Creating a page takes a ticket for its number first, and looks again under the ticket, so that of
several clients who miss the same page one maps it and the others find it.
-/

namespace PagedQueue

/-- Which page of a store. -/
abbrev PageId := Nat

/-- The pages of one directory. -/
structure PageStore where
  directory : Path
  pageSize : Nat
  pageSize_pos : 0 < pageSize
  /-- How long an idle page stays mapped, in milliseconds. -/
  lifetime : UInt64
  /-- Every page ever mapped. -/
  pages : Array Page := #[]
  /-- The page that stands for a number. -/
  cached : Std.TreeMap Nat PageId := {}
  /-- The tickets of the pages that are being created. -/
  creating : Std.TreeMap Nat Nat := {}
  /-- How many tickets were given so far. -/
  tickets : Nat := 0

namespace PageStore

open Procedure

/-- The page with this number in the table. -/
def page (s : PageStore) (id : PageId) : Page := s.pages.getD id default

/-- Changes one page. -/
def updatePage (s : PageStore) (id : PageId) (f : Page → Page) : PageStore :=
  { s with pages := s.pages.modify id f }

/-- The path of the file of a page. -/
def pathOf (s : PageStore) (index : Nat) : Path := s.directory ++ [PageName.ofIndex index]

/-- The age at which an idle page is let go. The lifetime is taken as a signed word, so the largest
ones lie below zero and let every page go that does not lie in the future. -/
def maxAge (s : PageStore) : Int := s.lifetime.toInt64.toInt

/-- The pages in the cache. -/
def cachedPages (s : PageStore) : List PageId := s.cached.values

/-- Makes the directories that are missing on the way to a path. -/
def makeDirectories {σ : Type} (path : Path) : Procedure σ Unit := do
  let missing ← ofOption .disk ((← disk).missingDirectories? path)
  missing.forM fun path => perform (.makeDirectory path)

/-- A store over a directory, which is made if it is missing. -/
def create {σ : Type} (directory : Path) (pageSize : Nat) (lifetime : UInt64) :
    Procedure σ PageStore :=
  if h : 0 < pageSize then do
    makeDirectories directory
    return { directory, pageSize, pageSize_pos := h, lifetime }
  else throw (.misconfigured .pageSizeNotPositive)

/-! ## Letting pages go -/

/-- Collects and closes the idle pages that have reached the age at which they are let go, and says
how many those were. -/
def sweep : Procedure PageStore Nat := do
  let now ← look
  let s ← memory
  let expired := s.cached.toList.filter fun (_, id) =>
    (s.page id).isExpired s.maxAge now && (s.page id).isIdle
  update fun s => expired.foldl (fun s (index, id) =>
    { s.updatePage id (·.collect.close) with cached := s.cached.erase index }) s
  return expired.length

/-- Closes one page, whether it has users or not, and takes it out of the cache. -/
def drop (s : PageStore) (index : Nat) : PageStore :=
  match s.cached[index]? with
  | some id => { s.updatePage id Page.close with cached := s.cached.erase index }
  | none => s

/-- Closes all pages in the cache and empties it. -/
def dropAll (s : PageStore) : PageStore :=
  { s.cachedPages.foldl (fun s id => s.updatePage id Page.close) s with cached := {} }

/-- Forces the written bytes of all pages in the cache out. -/
def flush (s : PageStore) : PageStore :=
  s.cachedPages.foldl (fun s id => s.updatePage id Page.flush) s

/-! ## Handing pages out -/

/-- Counts one user more on the page in the cache, if there is one that was not collected. -/
def lookup (index : Nat) : Procedure PageStore (Option PageId) := do
  let s ← memory
  match s.cached[index]?.filter fun id => (s.page id).isLive with
  | some id =>
    let now ← look
    update (·.updatePage id fun page => page.retain.touch now)
    return some id
  | none => return none

/-- The file at a path, made empty if it is missing, unless the system refuses it. -/
def obtainFile (path : Path) : Procedure PageStore FileId := do
  let d ← disk
  if path ∈ d.refused then throw (.pageMap path)
  else
    match d.node? path with
    | some (.file id) => return id
    | some .directory => throw (.pageMap path)
    | none =>
      if d.node? path.dropLast = some .directory then
        perform (.create path)
        return d.files.size
      else throw (.pageMap path)

/-- Maps the file of a page, which is made or filled up with zeros to the size of a page. -/
def map (index : Nat) : Procedure PageStore Page := do
  let s ← memory
  let path := s.pathOf index
  let file ← obtainFile path
  if (← disk).sizeOf (.file file) < s.pageSize then perform (.extend file s.pageSize)
  return Page.mapped index s.pageSize path file (← look)

/-- Puts a new page into the cache with one user, unless one is there that was not collected: then
that one gets the user. A sweep follows. -/
def insert (index : Nat) (page : Page) : Procedure PageStore PageId := do
  let s ← memory
  match s.cached[index]?.filter fun id => (s.page id).isLive with
  | some id =>
    update (·.updatePage id Page.retain)
    discard sweep
    return id
  | none =>
    let id := s.pages.size
    update fun s => { s with pages := s.pages.push page.retain, cached := s.cached.insert index id }
    discard sweep
    return id

/-- Takes a ticket for creating a page, or the one that is out for its number. -/
def takeTicket (index : Nat) : Procedure PageStore Nat := do
  let s ← memory
  match s.creating[index]? with
  | some ticket => return ticket
  | none =>
    update fun s =>
      { s with creating := s.creating.insert index s.tickets, tickets := s.tickets + 1 }
    return s.tickets

/-- Withdraws the ticket of a page. -/
def withdrawTicket (index : Nat) : Procedure PageStore Unit :=
  update fun s => { s with creating := s.creating.erase index }

/-- What is done under a ticket: look again, and map the page if it is still missing. -/
def createPage (index : Nat) : Procedure PageStore PageId := do
  match ← lookup index with
  | some id => return id
  | none => insert index (← map index)

/-- Hands out a page with one user more, mapping it if necessary. -/
def acquire (index : Nat) : Procedure PageStore PageId := do
  match ← lookup index with
  | some id => return id
  | none =>
    discard (takeTicket index)
    tryFinally (createPage index) (withdrawTicket index)

/-- Counts one user less on a page, now used for the last time. -/
def giveBack (id : PageId) : Procedure PageStore Unit := do
  update (·.updatePage id Page.release)
  let now ← look
  update (·.updatePage id (·.touch now))

/-- Counts one user less on the page that stands for a number in the cache. -/
def release (index : Nat) : Procedure PageStore Unit := do
  match (← memory).cached[index]? with
  | some id => giveBack id
  | none => return ()

/-- Uses a page and gives it back, whether the use succeeds or not. It is the page handed out that
is given back, even if another one stands for its number by then. -/
def withPage {α : Type} (index : Nat) (use : PageId → Procedure PageStore α) :
    Procedure PageStore α := do
  let id ← acquire index
  tryFinally (use id) (giveBack id)

/-! ## Bytes of a page -/

/-- The bytes of a range of a page. -/
def readPage (id : PageId) (start length : Nat) : Procedure PageStore (List UInt8) := do
  let page := (← memory).page id
  if ¬ page.Covers start length then throw (.misuse (page.outside start length))
  if !page.isOpen then throw (.misuse (.readClosed page.path))
  return (← disk).window page.file (start - page.base) length

/-- Replaces the bytes of a range of a page. -/
def writePage (id : PageId) (start : Nat) (bytes : List UInt8) : Procedure PageStore Unit := do
  let page := (← memory).page id
  if ¬ page.Covers start bytes.length then throw (.misuse (page.outside start bytes.length))
  if !page.isOpen then throw (.misuse (.writeClosed page.path))
  if bytes ≠ [] then perform (.copy page.file (start - page.base) bytes)
  update (·.updatePage id (·.written start bytes))

end PageStore

end PagedQueue
