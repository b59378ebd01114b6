import PagedQueue.Fault

/-!
# Settings of a queue

Where a queue keeps its pages, how large they are, how long an idle page stays mapped, and when
written pages are forced out. `Settings.validate` refuses the values with which page arithmetic, the
cache or the durability policy could not work; the first offence in the order of the fields counts.
-/

namespace PagedQueue

/-- When written pages are forced out. -/
inductive Durability where
  /-- Only when asked to, and on closing. -/
  | manual
  /-- After every change. -/
  | everyWrite
  /-- After this many changes. -/
  | everyOperations (count : Nat)
  /-- After each interval of this many milliseconds. -/
  | interval (milliseconds : Nat)
  deriving DecidableEq, Repr

/-- The text by which a durability policy is shown. -/
def Durability.describe : Durability → String
  | manual => "Manual"
  | everyWrite => "EveryWrite"
  | everyOperations count => s!"EveryNOperations \x7b count: {count} \x7d"
  | interval milliseconds => s!"Interval \x7b ms: {milliseconds} \x7d"

/-- The settings of one queue. -/
structure Settings where
  /-- The directory that holds the queue, by the name it has outside. -/
  directory : String := "./mmqueue_data"
  /-- The size of every page in bytes. -/
  pageSize : Nat := 1048576
  /-- How long an idle page stays mapped after its last use, in milliseconds. -/
  lifetime : UInt64 := 10000
  durability : Durability := .interval 1000
  deriving DecidableEq, Repr

namespace Settings

/-- The largest page that can be mapped. -/
def maxPageSize : Nat := 0x7FFFFFFF

/-- Refuses settings that cannot work. -/
def validate (s : Settings) : Except Fault Unit :=
  if s.pageSize = 0 ∨ s.pageSize % 8 ≠ 0 then
    .error (.misconfigured (.pageSizeUnaligned s.pageSize))
  else if s.pageSize > maxPageSize then .error (.misconfigured (.pageSizeTooLarge s.pageSize))
  else if s.lifetime = 0 then .error (.misconfigured .lifetimeZero)
  else match s.durability with
    | .everyOperations 0 => .error (.misconfigured .operationCountZero)
    | .interval 0 => .error (.misconfigured .intervalZero)
    | _ => .ok ()

end Settings

end PagedQueue
