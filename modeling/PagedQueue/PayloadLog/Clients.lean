import PagedQueue.Clients
import PagedQueue.PayloadLog

/-!
# Clients that share a payload log

An append takes its place at once, and then writes what of the payload lies in one page after the
other. Between two of these steps the other clients take theirs. An append that is refused a page
ends there: the file of the page may have been made and filled up by then, and what was written
before stays.

The log is recovered, or opened anew over its directory, only while no call is under way.
-/

namespace PagedQueue

open Procedure

namespace PagedFile

/-- Writes what lies in the first page of bytes at an offset, and says how many bytes those were. -/
def writeFirst (start : Nat) (bytes : List UInt8) : Procedure PagedFile Nat := do
  let pageSize := (← memory).store.pageSize
  let length := firstLength pageSize start bytes.length
  onStore (PageStore.withPage (start / pageSize) fun id =>
    PageStore.writePage id start (bytes.take length))
  return length

end PagedFile

namespace PageStore

/-- How far the mapping of a page came that was refused. -/
inductive Refusal where
  | untouched
  /-- The file was there or was made. -/
  | obtained
  /-- It was filled up, too. -/
  | filled
  deriving DecidableEq, Repr

/-- A page is refused. -/
def refuse (index : Nat) (reached : Refusal) : Procedure PageStore Unit := do
  let path := (← memory).pathOf index
  match reached with
  | .untouched => pure ()
  | .obtained => discard (obtainFile path)
  | .filled => discard (map index)
  throw (.pageMap path)

end PageStore

/-- What is asked of a payload log. -/
inductive LogCall where
  | append (payload : List UInt8)
  | read (offset length : Nat)
  | flush
  | close
  deriving DecidableEq, Repr

/-- What is answered. -/
inductive LogAnswer where
  | done
  | appended (payload : List UInt8) (offset : Nat)
  | bytes (value : List UInt8)
  deriving DecidableEq, Repr

/-- Where a client is in its call: the step that it takes next. -/
inductive LogStage where
  | reserve (payload : List UInt8)
  /-- So many bytes of the payload are written. -/
  | write (payload : List UInt8) (offset written : Nat)
  | read (offset length : Nat)
  | flush
  | close
  /-- The call is over. -/
  | ended (answer : Except Fault LogAnswer)

namespace LogStage

/-- Where a call begins. -/
def start : LogCall → LogStage
  | .append payload => .reserve payload
  | .read offset length => .read offset length
  | .flush => .flush
  | .close => .close

/-- Takes the step of a stage. -/
def advance : LogStage → Procedure PayloadLog LogStage
  | .reserve payload => return .write payload (← PayloadLog.reserve payload.length) 0
  | .write payload offset written => do
    if written < payload.length then
      let length ← PayloadLog.onFile
        (PagedFile.writeFirst (offset + written) (payload.drop written))
      return .write payload offset (written + length)
    PayloadLog.onFile (PagedFile.markWritten (offset + written))
    return .ended (.ok (.appended payload offset))
  | .read offset length => return .ended (.ok (.bytes (← PayloadLog.read offset length)))
  | .flush => do
    PayloadLog.flush
    return .ended (.ok .done)
  | .close => do
    PayloadLog.close
    return .ended (.ok .done)
  | .ended answer => return .ended answer

end LogStage

namespace PayloadLog

/-- How clients share a payload log. A client whose call is over can make another one. -/
def sharing : Protocol PayloadLog LogCall LogStage where
  start := LogStage.start
  advance := LogStage.advance
  fail fault := .ended (.error fault)
  isFree
    | .ended _ => true
    | _ => false

/-- Clients of a payload log, none of which is in a call. -/
def unused (s : Session PayloadLog) : Crowd PayloadLog LogStage := ⟨s, fun _ => .ended (.ok .done)⟩

/-- A log over the pages of a directory, which is made if it is missing. -/
def openIn {σ : Type} (directory : Path) (pageSize : Nat) (lifetime : UInt64) :
    Procedure σ PayloadLog := do
  let store ← PageStore.create directory pageSize lifetime
  return { file := ← PagedFile.ofStore store }

/-- The log is opened anew over its directory, and recovered. -/
def reopen (lifetime : UInt64) : Procedure PayloadLog Nat := do
  let store := (← memory).file.store
  let log ← openIn store.directory store.pageSize lifetime
  update fun _ => log
  recover

/-- Where offsets end. -/
def maxCursor : Nat := 0x10000000000000000

/-- How clients may use a payload log, with the events that happened on the way. Every offset that
is given out is a word of 64 bits. -/
inductive Journey (w : Crowd PayloadLog LogStage) :
    List (Event LogStage) → Crowd PayloadLog LogStage → Prop
  | rest : Journey w [] w
  | step {trace : List (Event LogStage)} {v u : Crowd PayloadLog LogStage} {e : Event LogStage} :
    Journey w trace v → sharing.Step v e u → u.session.memory.cursor ≤ maxCursor →
      Journey w (trace ++ [e]) u
  /-- The next page of a payload is refused. -/
  | refuse {trace : List (Event LogStage)} {v : Crowd PayloadLog LogStage} {client : Nat}
    {payload : List UInt8} {offset written : Nat} {reached : PageStore.Refusal} {fault : Fault}
    {t : Session PayloadLog} :
    Journey w trace v → v.stage client = .write payload offset written → written < payload.length →
      (onFile (PagedFile.onStore (PageStore.refuse
        ((offset + written) / v.session.memory.file.store.pageSize) reached))).outcome v.session
        = (.error fault, t) →
      Journey w (trace ++ [⟨client, v.stage client, .ended (.error fault)⟩])
        (v.put client (.ended (.error fault)) t)
  | recover {trace : List (Event LogStage)} {v : Crowd PayloadLog LogStage} {length : Nat}
    {t : Session PayloadLog} :
    Journey w trace v → (∀ client, sharing.isFree (v.stage client) = true) →
      recover.outcome v.session = (.ok length, t) → Journey w trace ⟨t, v.stage⟩
  | reopen {trace : List (Event LogStage)} {v : Crowd PayloadLog LogStage} {lifetime : UInt64}
    {length : Nat} {t : Session PayloadLog} :
    Journey w trace v → (∀ client, sharing.isFree (v.stage client) = true) →
      (reopen lifetime).outcome v.session = (.ok length, t) → Journey w trace ⟨t, v.stage⟩

end PayloadLog

end PagedQueue
