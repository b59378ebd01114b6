import Std.Time.DateTime.Timestamp
import PagedQueue.Command
import PagedQueue.Disk.Outside

/-!
# The program

Reads the directories of a queue from the file system, runs a command line on them, and writes back
what changed. The work itself is done by `Invocation.perform` on a disk in memory; its journal tells
which directories and files are to be written.
-/

namespace PagedQueue.Program

/-- The outside name of the root of the disk: a directory is named from the root of the file system
or from the current directory. -/
def rootOf (directory : String) : String :=
  if directory.startsWith "/" then "" else "."

/-- Where a path of the disk lies outside. -/
def locate (root : String) (path : Path) : IO.FS.DirEntry where
  root := Path.render root path.dropLast
  fileName := path.leaf

/-- Takes what a path leads to into the disk. A directory comes without what is in it. -/
def takeIn (root : String) (path : Path) (disk : Disk) : IO Disk := do
  let place := (locate root path).path
  if ← place.isDir then return disk.makeDirectories path
  if ← place.pathExists then
    return disk.writeFile ("/".intercalate path) (← IO.FS.readBinFile place).data.toList 0
  return disk

/-- Takes a directory and what is in it into the disk, or nothing if there is no such directory. -/
def takeInDirectory (root : String) (path : Path) (disk : Disk) : IO Disk := do
  let disk ← takeIn root path disk
  if disk.node? path ≠ some .directory then return disk
  (← (locate root path).path.readDir).foldlM
    (fun disk entry => takeIn root (path ++ [entry.fileName]) disk) disk

/-- Takes the directories of a queue into a new disk. -/
def takeInQueue (root : String) (settings : Settings) : IO Disk := do
  let disk ← takeIn root (Path.ofString settings.directory) {}
  let disk ← takeInDirectory root (Queue.recordDirectory settings) disk
  takeInDirectory root (Queue.payloadDirectory settings) disk

/-- Makes a directory that was made, and removes a file that was removed. -/
def writeName (root : String) : Change → IO Unit
  | .makeDirectory path => IO.FS.createDirAll (locate root path).path
  | .unlink path => IO.FS.removeFile (locate root path).path
  | .create _ | .extend .. | .copy .. => return ()

/-- The file whose bytes a change touches. -/
def touched : Change → Option FileId
  | .extend file _ | .copy file .. => some file
  | .makeDirectory _ | .create _ | .unlink _ => none

/-- The named files whose bytes the changes of a journal touched. -/
def touchedFiles (disk : Disk) (journal : List Change) : List (Path × File) :=
  let files := journal.filterMap touched
  disk.nodes.toList.filterMap fun (path, node) =>
    match node with
    | .file file => if files.contains file then (disk.file? file).map (path, ·) else none
    | .directory => none

/-- Writes what a run changed. -/
def writeBack (root : String) (host : Host) : IO Unit := do
  host.journal.reverse.forM (writeName root)
  for (path, file) in touchedFiles host.disk host.journal do
    IO.FS.writeBinFile (locate root path).path file.bytes

/-- Runs a command on the queue of its directory. -/
def run (invocation : Invocation) : IO UInt32 := do
  let root := rootOf invocation.directory
  let now := (← Std.Time.Timestamp.now).toMillisecondsSinceUnixEpoch.val
  let fresh := Uuid.ofRandom (ofBigEndian (← IO.getRandomBytes 16).data.toList)
  let disk ← takeInQueue root invocation.settings
  let host : Host := { disk, clock := { reading := fun _ => now } }
  let (answer, session) := (invocation.perform fresh).outcome (⟨host, ()⟩ : Session Unit)
  writeBack root session.host
  match answer with
  | .ok lines =>
    IO.print (unlines lines)
    return 0
  | .error fault =>
    IO.eprintln (fault.message root)
    return 1

end PagedQueue.Program

open PagedQueue in
/-- Inspects and operates on the queue of a directory. -/
def main (arguments : List String) : IO UInt32 := do
  match Request.ofArguments arguments with
  | .error usageError =>
    IO.eprintln usageError.message
    return 2
  | .ok .help =>
    IO.print (unlines usage)
    return 0
  | .ok .version =>
    IO.println versionLine
    return 0
  | .ok (.run invocation) => Program.run invocation
