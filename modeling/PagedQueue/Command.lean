import PagedQueue.Command.Arguments
import PagedQueue.Queue
import PagedQueue.Text.Lossy

/-!
# Commands

A command opens the queue of a directory, does one thing with it, closes it, and answers with lines
of text. A command that fails answers nothing. Every change is forced out at once, so that commands
can follow one another as separate processes.
-/

namespace PagedQueue

open Procedure

/-- The version of the program. -/
def version : String := "0.1.0"

/-- The name of the program, and its version. -/
def versionLine : String := "mmq " ++ version

/-- How the program is used. -/
def usage : List String :=
  ["Inspect and operate on an mmqueue transaction log",
   "",
   "Usage: mmq [OPTIONS] <COMMAND>",
   "",
   "Commands:",
   "  stats     Record counts and page file usage",
   "  dump      Print every meta record",
   "  push      Push a message with a fresh UUID",
   "  pop       Lock the oldest available message and print it",
   "  rollback  Return a locked message to the queue",
   "  help      Print this message or the help of the given subcommand(s)",
   "",
   "Options:",
   "  -d, --data-dir <DATA_DIR>    Data directory [default: ./mmqueue_data]",
   "  -p, --page-size <PAGE_SIZE>  Page size in bytes [default: 1048576]",
   "  -h, --help                   Print help",
   "  -V, --version                Print version"]

/-- Fills a text up with blanks in front. -/
def alignRight (width : Nat) (text : String) : String :=
  String.ofList (text.toList.leftpad width ' ')

/-- Fills a text up with blanks behind. -/
def alignLeft (width : Nat) (text : String) : String :=
  String.ofList (text.toList.rightpad width ' ')

/-- The name of a stored status, or the tag behind a question mark if no status has it. -/
def statusText (tag : Int32) : String :=
  match Status.ofTag tag with
  | .ok status => status.name
  | .error _ => "?" ++ toString tag

/-- The line about one record. -/
def recordLine (record : Record) (position : Nat) : String :=
  let place := alignRight 8 (toString position)
  if record.isEmpty then place ++ "  <empty>"
  else
    let uuid := record.uuid.render
    let status := alignLeft 8 (statusText record.status)
    s!"{place}  {uuid}  {status} offset={record.offset} length={record.length} type={record.kind}"

/-- How many messages have a status, tombstones included. -/
def countOf (status : Status) (records : List Record) : Nat :=
  records.countP fun record => !record.isEmpty && record.status = status.tag

/-- The lines about the records and the page files. -/
def statsLines (recordCount : Nat) (records : List Record) (footprint : Footprint) : List String :=
  let new := countOf .new records
  let locked := countOf .locked records
  let deleted := countOf .deleted records
  [s!"records:     {recordCount}",
   s!"new:         {new}",
   s!"locked:      {locked}",
   s!"deleted:     {deleted}",
   s!"meta pages:  {footprint.recordPages} ({footprint.recordBytes} bytes)",
   s!"data pages:  {footprint.payloadPages} ({footprint.payloadBytes} bytes)",
   s!"data cursor: {footprint.cursor}"]

/-- The line about a message taken. -/
def messageLine (m : Message) : String :=
  m.uuid.render ++ " " ++ m.kind.name ++ " " ++ Text.ofBytesLossy m.payload

/-- Does what a command asks for and answers with lines; `fresh` is the UUID of a message to be
pushed. -/
def Command.perform (fresh : Uuid) : Command → Procedure Queue (List String)
  | stats => do
    let footprint ← Queue.footprint
    let records ← Queue.records
    return statsLines (← memory).recordCount records footprint
  | dump => do
    return (← Queue.records).mapIdx fun position record => recordLine record position
  | push payload kind => do
    let uuid := fresh.render
    if ← Queue.push ⟨fresh, kind, payload.toUTF8.data.toList⟩ then return [uuid]
    return ["duplicate uuid " ++ uuid]
  | pop finish => do
    match ← Queue.pop with
    | none => return ["queue is empty"]
    | some message =>
      if finish then discard (Queue.finish message.uuid)
      return [messageLine message]
  | rollback uuid => do
    match ← Queue.rollback uuid with
    | some _ => return ["rolled back " ++ uuid.render]
    | none => return [uuid.render ++ " is not locked"]

namespace Invocation

/-- The settings of the queue that a command is for. -/
def settings (i : Invocation) : Settings :=
  { directory := i.directory, pageSize := i.pageSize, durability := .everyWrite }

/-- Opens the queue, performs the command and closes the queue. -/
def perform {σ : Type} (fresh : Uuid) (i : Invocation) : Procedure σ (List String) := do
  let (lines, _) ← launch (← Queue.load i.settings) do
    let lines ← i.command.perform fresh
    Queue.close
    return lines
  return lines

end Invocation

/-- What a run of the program leaves: its exit status, and what it printed. -/
structure Report where
  status : Nat
  output : String
  deriving DecidableEq

/-- Lines as text. -/
def unlines (lines : List String) : String :=
  String.join (lines.map (· ++ "\n"))

/-- Runs a command line on a host. The exit status is 1 if the command fails and 2 if the command
line is not accepted. -/
def Host.run (host : Host) (fresh : Uuid) (arguments : List String) : Report × Host :=
  match Request.ofArguments arguments with
  | .error _ => (⟨2, ""⟩, host)
  | .ok .help => (⟨0, unlines usage⟩, host)
  | .ok .version => (⟨0, unlines [versionLine]⟩, host)
  | .ok (.run invocation) =>
    match (invocation.perform fresh).outcome (⟨host, ()⟩ : Session Unit) with
    | (.ok lines, s) => (⟨0, unlines lines⟩, s.host)
    | (.error _, s) => (⟨1, ""⟩, s.host)

end PagedQueue
