import PagedQueue.Page.IndexSet
import PagedQueue.Page.Store

/-!
# The page files of a directory

What pages a directory holds is read off the names of its files. This tells how far a byte space
reaches, and which pages are older than a given time and may be deleted. A page is deleted by its
number, so a file whose name is read as that number but is not the page's own name stays.
-/

namespace PagedQueue.PageStore

open Procedure

/-- The entries of the directory that count as pages: their names, numbers and nodes. -/
def pageEntries : Procedure PageStore (List (String × Nat × Node)) := do
  let entries ← ofOption .disk ((← disk).children? (← memory).directory)
  return entries.filterMap fun (name, node) => (PageName.index? name).map (name, ·, node)

/-- The numbers of all pages. -/
def pageIndexes : Procedure PageStore IndexSet := do
  return IndexSet.ofList ((← pageEntries).map fun (_, index, _) => index)

/-- When what a path leads to was last modified. What bears no date counts as modified just now. -/
def modificationTime (d : Disk) (now : Int) (path : Path) : Int := (d.modified? path).getD now

/-- The numbers of the entries that count as pages and were last modified before a time, be they
files or directories. -/
def pageIndexesBefore (time : Int) : Procedure PageStore IndexSet := do
  let d ← disk
  let now ← look
  let directory := (← memory).directory
  let old := (← pageEntries).filter fun (name, _, _) =>
    modificationTime d now (directory ++ [name]) < time
  return IndexSet.ofList (old.map fun (_, index, _) => index)

/-- The newest page last modified before a time. -/
def newestBefore (time : Int) : Procedure PageStore (Option Nat) := do
  ofExcept (IndexSet.newest (← pageIndexesBefore time))

/-- The names of all page files, sorted. -/
def pageNames : Procedure PageStore (List String) := do
  return ((← pageEntries).map Prod.fst).mergeSort fun a b => a ≤ b

/-- The number of bytes of all page files together. -/
def totalSize : Procedure PageStore Nat := do
  let d ← disk
  return (← pageEntries).foldl (fun total (_, _, node) => total + d.sizeOf node) 0

/-- When the file of a page was last modified. -/
def modified? (index : Nat) : Procedure PageStore (Option Int) := do
  let d ← disk
  let now ← look
  let path := (← memory).pathOf index
  return (d.node? path).map fun _ => modificationTime d now path

/-! ## Deleting pages -/

/-- Closes a page and removes its file. The answer says whether the file is gone, which also holds
if there was none; a directory of its name stays. -/
def deletePage (index : Nat) : Procedure PageStore Bool := do
  update (·.drop index)
  let path := (← memory).pathOf index
  match (← disk).node? path with
  | some (.file _) =>
    perform (.unlink path)
    return true
  | some .directory => return false
  | none => return true

/-- Deletes several pages. -/
def deletePages (indexes : List Nat) : Procedure PageStore Unit :=
  indexes.forM fun index => discard (deletePage index)

/-- Deletes all pages. -/
def deleteAll : Procedure PageStore Unit := do
  update dropAll
  deletePages (← pageIndexes).toList

/-- Deletes the pages last modified before a time. -/
def deleteBefore (time : Int) : Procedure PageStore Unit := do
  deletePages (← pageIndexesBefore time).toList

end PagedQueue.PageStore
