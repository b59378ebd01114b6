import PagedQueue.Disk

/-!
# Other programs on the same disk

What other programs do to a disk and see of it: whole files and trees written, patched, read, listed
and removed. The queue itself uses none of this. A file that is written again stays the same file,
so a page that is mapped over it shows the new bytes at once.
-/

namespace PagedQueue.Disk

/-- Makes a directory and those on the way to it, none of which bears a date. Nothing happens if a
file is in the way. -/
def makeDirectories (d : Disk) (path : Path) : Disk :=
  match d.missingDirectories? path with
  | some missing =>
    missing.foldl (fun d path =>
      { d with
        nodes := d.nodes.insert path .directory
        dates := (d.dates.erase path.dropLast).erase path }) d
  | none => d

/-- The file of a name, which is made with the directories on the way to it if it is missing; none
if the name is that of a directory or a file is in the way. -/
def obtainFile (d : Disk) (name : String) (now : Int) : Disk × Option FileId :=
  let path := Path.ofString name
  match d.node? path with
  | some .directory => (d, none)
  | some (.file id) => (d, if Path.namesDirectory name then none else some id)
  | none =>
    if path = [] then (d, none)
    else
      let d := d.makeDirectories path.dropLast
      if d.node? path.dropLast = some .directory ∧ ¬ Path.namesDirectory name then
        ((Change.create path).apply now d, some d.files.size)
      else (d, none)

/-- Replaces the contents of a file. -/
def writeFile (d : Disk) (name : String) (bytes : List UInt8) (now : Int) : Disk :=
  match d.obtainFile name now with
  | (d, some id) => { d with files := d.files.modify id fun _ => ⟨⟨bytes.toArray⟩, now⟩ }
  | (d, none) => d

/-- Overwrites bytes of a file in place; a shorter file is first filled up with zeros. -/
def patchFile (d : Disk) (name : String) (start : Nat) (bytes : List UInt8) (now : Int) : Disk :=
  match d.obtainFile name now with
  | (d, some id) =>
    let d := if bytes = [] then d else (Change.extend id (start + bytes.length)).apply now d
    (Change.copy id start bytes).apply now d
  | (d, none) => d

/-- The number of the file that a name leads to. -/
def lookupFile? (d : Disk) (name : String) : Option FileId :=
  match d.node? (Path.ofString name) with
  | some (.file id) => if Path.namesDirectory name then none else some id
  | _ => none

/-- The bytes of a file from an offset on, as far as it has them. -/
def contents? (d : Disk) (name : String) (start : Nat) (length : Option Nat) :
    Option (List UInt8) := do
  let f ← d.file? (← d.lookupFile? name)
  let rest := f.size - start
  return f.window start (min rest (length.getD rest))

/-- Sets the time of the last modification of a file or a directory. -/
def setModified (d : Disk) (name : String) (time : Int) : Disk :=
  match d.lookupFile? name with
  | some id => { d with files := d.files.modify id fun f => ⟨f.bytes, time⟩ }
  | none =>
    match d.node? (Path.ofString name) with
    | some .directory => { d with dates := d.dates.insert (Path.ofString name) time }
    | _ => d

/-- Removes a file or a whole tree, and says whether what the name leads to is gone. A directory
cannot be removed by a name that ends in the part `.`: then it loses what is in it but stays. -/
def remove (d : Disk) (name : String) : Disk × Bool :=
  let path := Path.ofString name
  let stays := (Path.parts name.toList).getLast? = some ['.']
  match d.node? path with
  | none => (d, false)
  | some (.file _) =>
    if Path.namesDirectory name then (d, false)
    else ({ d with nodes := d.nodes.erase path, dates := d.dates.erase path.dropLast }, true)
  | some .directory =>
    let nodes := d.nodes.filter fun other _ => !path.isPrefixOf other || (stays && other = path)
    ({ d with nodes, dates := (d.dates.erase path.dropLast).erase path }, !stays)

/-- All nodes but the root with their names, sorted by name; the name of a directory ends in a
slash. -/
def list (d : Disk) : List (String × Node) :=
  let name (path : Path) : Node → String
    | .directory => "/".intercalate path ++ "/"
    | .file _ => "/".intercalate path
  let named := d.nodes.toList.filterMap fun (path, node) =>
    if path = [] then none else some (name path node, node)
  named.mergeSort fun a b => a.1 ≤ b.1

end PagedQueue.Disk
