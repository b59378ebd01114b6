import Std.Data.TreeMap.Basic
import PagedQueue.Path
import PagedQueue.Disk.File

/-!
# The disk

A disk is a tree of named nodes over a table of files. A node names a file, it does not hold it: a
file that is no longer named keeps its contents for whoever still has it open, and a new file of the
same name is another file.

Everything that the queue does to a disk is one of a few elementary changes (`Change`), so that what
an operation did can be told as the list of its changes, and an interruption as a list that breaks
off.
-/

namespace PagedQueue

/-- Which file of the disk. -/
abbrev FileId := Nat

/-- What a path leads to. -/
inductive Node where
  | directory
  | file (id : FileId)
  deriving DecidableEq, Repr

/-- The named nodes and the files of a disk. The root directory is a node like any other: a new disk
has it and nothing else, and it can be lost. -/
structure Disk where
  nodes : Std.TreeMap Path Node := ({} : Std.TreeMap Path Node).insert [] .directory
  files : Array File := #[]
  /-- When directories were last modified, in milliseconds. A directory without a date counts as
  modified just now. -/
  dates : Std.TreeMap Path Int := {}
  /-- The files that the system refuses to open for the time being, whether they are there or
  not. -/
  refused : List Path := []

namespace Disk

/-- What a path leads to, if anything. -/
def node? (d : Disk) (path : Path) : Option Node := d.nodes[path]?

/-- The file with this number. -/
def file? (d : Disk) (id : FileId) : Option File := d.files[id]?

/-- The file that a path leads to. -/
def fileAt? (d : Disk) (path : Path) : Option File :=
  match d.node? path with
  | some (.file id) => d.file? id
  | _ => none

/-- When what a path leads to was last modified, if that bears a date. -/
def modified? (d : Disk) (path : Path) : Option Int :=
  match d.node? path with
  | some .directory => d.dates[path]?
  | some (.file id) => (d.file? id).map File.modified
  | none => none

/-- The bytes of a file from an offset on, zeros behind its end. -/
def window (d : Disk) (id : FileId) (start length : Nat) : List UInt8 :=
  match d.file? id with
  | some f => f.window start length
  | none => List.replicate length 0

/-- The names in a directory with what they lead to; none if the path leads to no directory. -/
def children? (d : Disk) (directory : Path) : Option (List (String × Node)) :=
  match d.node? directory with
  | some .directory =>
    some <| d.nodes.toList.filterMap fun (path, node) =>
      if path.dropLast = directory then path.getLast?.map (·, node) else none
  | _ => none

/-- The size by which a directory itself is counted. -/
def directorySize : Nat := 4096

/-- The size of what a node stands for. -/
def sizeOf (d : Disk) : Node → Nat
  | .directory => directorySize
  | .file id => ((d.file? id).map File.size).getD 0

/-- The directories that are missing on the way to a path, outermost first; none if a file is in the
way. -/
def missingDirectories? (d : Disk) (path : Path) : Option (List Path) :=
  (List.range (path.length + 1)).foldlM (fun missing depth =>
    match d.node? (path.take depth) with
    | some .directory => some missing
    | some (.file _) => none
    | none => some (missing ++ [path.take depth])) []

end Disk

/-- An elementary change of a disk. -/
inductive Change where
  /-- A directory appears. -/
  | makeDirectory (path : Path)
  /-- An empty file appears. -/
  | create (path : Path)
  /-- Zeros are added to a file up to a size. -/
  | extend (file : FileId) (size : Nat)
  /-- Bytes of a file are replaced. -/
  | copy (file : FileId) (start : Nat) (bytes : List UInt8)
  /-- A name of a file goes. -/
  | unlink (path : Path)
  deriving DecidableEq, Repr

/-- The disk after a change that happens at the time `now`. A name that comes or goes modifies the
directory it stands in. -/
def Change.apply (now : Int) : Change → Disk → Disk
  | makeDirectory path, d =>
    { d with
      nodes := d.nodes.insert path .directory
      dates := (d.dates.insert path.dropLast now).insert path now }
  | create path, d =>
    { d with
      nodes := d.nodes.insert path (.file d.files.size)
      files := d.files.push ⟨.empty, now⟩
      dates := d.dates.insert path.dropLast now }
  | extend file size, d =>
    { d with files := d.files.modify file (·.extend size now) }
  | copy file start bytes, d =>
    { d with files := d.files.modify file (·.overwrite start bytes now) }
  | unlink path, d =>
    { d with nodes := d.nodes.erase path, dates := d.dates.insert path.dropLast now }

end PagedQueue
