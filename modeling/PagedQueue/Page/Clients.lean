import PagedQueue.Clients
import PagedQueue.Page.Store

/-!
# Clients that share a page store

The calls of a page store, cut into the steps that happen at once when clients share it. The cache
is read by any number of clients or written by one, and a client under a ticket keeps all others
from it. Between two steps of a client in one of these sections the others go on, as far as they
need not wait: a count is read and then raised if it is still the same, and pages are given back
under no lock at all.

What a stage does to the store (`PageStage.act`) does not tell what it waits for: that is
`PageStage.awaits`, and `SharedStore` says whether it is free. The count of users has no upper bound
here.
-/

namespace PagedQueue

open Procedure

/-- What is done with a page. -/
inductive PageUse where
  | read (start length : Nat)
  | write (start : Nat) (bytes : List UInt8)
  | flush
  | pin
  | unpin
  deriving DecidableEq, Repr

/-- What is asked of a page store. -/
inductive PageCall where
  | acquire (index : Nat)
  | giveBack (id : PageId)
  /-- Gives back the page that stands for a number. -/
  | release (index : Nat)
  | sweep
  | use (id : PageId) (how : PageUse)
  deriving DecidableEq, Repr

/-- What is answered. -/
inductive PageAnswer where
  | done
  | page (index : Nat) (id : PageId)
  | swept (count : Nat)
  | bytes (value : List UInt8)
  deriving DecidableEq, Repr

namespace PageUse

/-- Uses a page. -/
def run (id : PageId) : PageUse → Procedure PageStore PageAnswer
  | .read start length => return .bytes (← PageStore.readPage id start length)
  | .write start bytes => do
    PageStore.writePage id start bytes
    return .done
  | .flush => do
    update (·.updatePage id Page.flush)
    return .done
  | .pin => do
    update (·.updatePage id Page.pin)
    return .done
  | .unpin => do
    update (·.updatePage id Page.unpin)
    return .done

end PageUse

namespace PageCall

/-- What the store does at a call that no other client disturbs. -/
def run : PageCall → Procedure PageStore PageAnswer
  | .acquire index => return .page index (← PageStore.acquire index)
  | .giveBack id => do
    PageStore.giveBack id
    return .done
  | .release index => do
    PageStore.release index
    return .done
  | .sweep => return .swept (← PageStore.sweep)
  | .use id how => how.run id

end PageCall

/-- For what a user is counted on a page in the cache. -/
inductive Counting where
  /-- The page was looked up, under a ticket or not. -/
  | look (index : Nat) (ticket? : Option Nat)
  /-- A page was mapped under a ticket, and another one stands for its number. -/
  | insert (index ticket : Nat) (page : Page)

/-- For what the cache is swept. -/
inductive Swept where
  | call
  /-- A page was put into the cache and has its user. -/
  | lease (index ticket : Nat) (id : PageId)

/-- Where a client is in its call: the step that it takes next. -/
inductive PageStage where
  | lookUp (index : Nat) (ticket? : Option Nat)
  | readCount (place : Counting) (id : PageId)
  /-- The count was this one. -/
  | raiseCount (place : Counting) (id : PageId) (count : Int)
  | touchFound (index : Nat) (ticket? : Option Nat) (id : PageId)
  | leaveLook (index : Nat) (ticket? : Option Nat) (found? : Option PageId)
  | takeTicket (index : Nat)
  | awaitTurn (index ticket : Nat)
  | map (index ticket : Nat)
  | openInsert (index ticket : Nat) (page : Page)
  | putPage (index ticket : Nat) (page : Page)
  | leaveInsert (index ticket : Nat) (id : PageId)
  | startSweep (swept : Swept)
  | openSweep (swept : Swept) (now : Int)
  /-- The pages `rest` are left to be looked at, and those in `gone` were collected. -/
  | examine (swept : Swept) (now : Int) (rest gone : List (Nat × PageId))
  /-- The first of the pages left is old enough. -/
  | collect (swept : Swept) (now : Int) (index : Nat) (id : PageId)
    (rest gone : List (Nat × PageId))
  | leaveSweep (swept : Swept) (gone : List (Nat × PageId))
  | closePages (swept : Swept) (ids : List PageId) (count : Nat)
  | leaveTurn (index ticket : Nat) (answer : Except Fault PageId)
  | withdrawTicket (index : Nat) (answer : Except Fault PageId)
  | findLeased (index : Nat)
  /-- A page is given back, by its number or not. -/
  | lowerCount (byNumber : Bool) (id : PageId)
  | touchBack (byNumber : Bool) (id : PageId)
  | leaveRelease
  | use (id : PageId) (how : PageUse)
  /-- The call is over. -/
  | ended (answer : Except Fault PageAnswer)

/-- What a client waits for. -/
inductive Lock where
  | reading
  | writing
  | turn (ticket : Nat)

/-- How a client has the cache. -/
inductive Section where
  | reading
  | writing
  deriving DecidableEq

namespace Counting

/-- The number of the page. -/
def index : Counting → Nat
  | .look index _ | .insert index _ _ => index

/-- A user was counted on the page. -/
def found (id : PageId) : Counting → PageStage
  | .look index ticket? => .touchFound index ticket? id
  | .insert index ticket _ => .leaveInsert index ticket id

/-- The page was collected. -/
def missed : Counting → PageStage
  | .look index ticket? => .leaveLook index ticket? none
  | .insert index ticket page => .putPage index ticket page

end Counting

namespace PageStage

/-- Where a call begins. -/
def start : PageCall → PageStage
  | .acquire index => .lookUp index none
  | .giveBack id => .lowerCount false id
  | .release index => .findLeased index
  | .sweep => .startSweep .call
  | .use id how => .use id how

/-- What a stage does to the store, and the stage that comes after it. -/
def act : PageStage → Procedure PageStore PageStage
  | .lookUp index ticket? => do
    match (← memory).cached[index]? with
    | some id => return .readCount (.look index ticket?) id
    | none => return .leaveLook index ticket? none
  | .readCount place id => return .raiseCount place id ((← memory).page id).references
  | .raiseCount place id count => do
    if count < 0 then return place.missed
    let references := ((← memory).page id).references
    if references ≠ count then return .raiseCount place id references
    update (·.updatePage id Page.retain)
    return place.found id
  | .touchFound index ticket? id => do
    let now ← look
    update (·.updatePage id (·.touch now))
    return .leaveLook index ticket? (some id)
  | .leaveLook index none (some id) => return .ended (.ok (.page index id))
  | .leaveLook index none none => return .takeTicket index
  | .leaveLook index (some ticket) (some id) => return .leaveTurn index ticket (.ok id)
  | .leaveLook index (some ticket) none => return .map index ticket
  | .takeTicket index => return .awaitTurn index (← PageStore.takeTicket index)
  | .awaitTurn index ticket => return .lookUp index (some ticket)
  | .map index ticket =>
    tryCatch (do return .openInsert index ticket (← PageStore.map index)) fun fault =>
      return .leaveTurn index ticket (.error fault)
  | .openInsert index ticket page => do
    match (← memory).cached[index]? with
    | some id => return .readCount (.insert index ticket page) id
    | none => return .putPage index ticket page
  | .putPage index ticket page => do
    let id := (← memory).pages.size
    update fun s => { s with pages := s.pages.push page.retain, cached := s.cached.insert index id }
    return .leaveInsert index ticket id
  | .leaveInsert index ticket id => return .startSweep (.lease index ticket id)
  | .startSweep swept => return .openSweep swept (← look)
  | .openSweep swept now => return .examine swept now (← memory).cached.toList []
  | .examine swept _ [] gone => return .leaveSweep swept gone
  | .examine swept now ((index, id) :: rest) gone => do
    let s ← memory
    if (s.page id).isExpired s.maxAge now then return .collect swept now index id rest gone
    return .examine swept now rest gone
  | .collect swept now index id rest gone => do
    if ((← memory).page id).isIdle then
      update (·.updatePage id Page.collect)
      return .examine swept now rest (gone ++ [(index, id)])
    return .examine swept now rest gone
  | .leaveSweep swept gone => do
    update fun s =>
      { s with cached := gone.foldl (fun cached (index, _) => cached.erase index) s.cached }
    return .closePages swept (gone.map Prod.snd) gone.length
  | .closePages swept (id :: ids) count => do
    update (·.updatePage id Page.close)
    return .closePages swept ids count
  | .closePages .call [] count => return .ended (.ok (.swept count))
  | .closePages (.lease index ticket id) [] _ => return .leaveTurn index ticket (.ok id)
  | .leaveTurn index _ answer => return .withdrawTicket index answer
  | .withdrawTicket index answer => do
    PageStore.withdrawTicket index
    return .ended (answer.map (.page index))
  | .findLeased index => do
    match (← memory).cached[index]? with
    | some id => return .lowerCount true id
    | none => return .leaveRelease
  | .lowerCount byNumber id => do
    update (·.updatePage id Page.release)
    return .touchBack byNumber id
  | .touchBack byNumber id => do
    let now ← look
    update (·.updatePage id (·.touch now))
    return if byNumber then .leaveRelease else .ended (.ok .done)
  | .leaveRelease => return .ended (.ok .done)
  | .use id how => return .ended (.ok (← how.run id))
  | .ended answer => return .ended answer

/-! ## Sections -/

/-- What the step of a stage waits for. -/
def awaits : PageStage → Option Lock
  | .lookUp _ _ | .findLeased _ => some .reading
  | .openInsert _ _ _ | .openSweep _ _ => some .writing
  | .awaitTurn _ ticket => some (.turn ticket)
  | _ => none

/-- How a client has the cache at a stage. -/
def section? : PageStage → Option Section
  | .readCount (.look _ _) _ | .raiseCount (.look _ _) _ _ | .touchFound _ _ _ | .leaveLook _ _ _
  | .lowerCount true _ | .touchBack true _ | .leaveRelease => some .reading
  | .readCount (.insert _ _ _) _ | .raiseCount (.insert _ _ _) _ _ | .putPage _ _ _
    | .leaveInsert _ _ _
  | .examine _ _ _ _ | .collect _ _ _ _ _ _ | .leaveSweep _ _ => some .writing
  | _ => none

/-- The ticket under which a client is at a stage. -/
def turn? : PageStage → Option Nat
  | .lookUp _ ticket? | .readCount (.look _ ticket?) _ | .raiseCount (.look _ ticket?) _ _
  | .touchFound _ ticket? _ | .leaveLook _ ticket? _ => ticket?
  | .readCount (.insert _ ticket _) _ | .raiseCount (.insert _ ticket _) _ _ | .map _ ticket
  | .openInsert _ ticket _ | .putPage _ ticket _ | .leaveInsert _ ticket _ | .leaveTurn _ ticket _
  | .startSweep (.lease _ ticket _) | .openSweep (.lease _ ticket _) _
    | .examine (.lease _ ticket _) _ _ _
  | .collect (.lease _ ticket _) _ _ _ _ _ | .leaveSweep (.lease _ ticket _) _
  | .closePages (.lease _ ticket _) _ _ => some ticket
  | _ => none

end PageStage

/-- A page store with its locks. -/
structure SharedStore where
  store : PageStore
  /-- How many clients read the cache. -/
  readers : Nat := 0
  /-- Whether a client writes the cache. -/
  isWritten : Bool := false
  /-- The tickets under which a client is. -/
  turns : List Nat := []

namespace SharedStore

/-- Whether no client has what one waits for. -/
def grants (s : SharedStore) : Lock → Bool
  | .reading => !s.isWritten
  | .writing => !s.isWritten && s.readers = 0
  | .turn ticket => ticket ∉ s.turns

/-- A client gives up what it has at one stage and gets what it has at another one. -/
def pass (s : SharedStore) (k k' : PageStage) : SharedStore where
  store := s.store
  readers := s.readers - (if k.section? = some .reading then 1 else 0)
    + if k'.section? = some .reading then 1 else 0
  isWritten := (s.isWritten && k.section? ≠ some .writing) || k'.section? = some .writing
  turns := k'.turn?.toList ++ k.turn?.toList.foldl List.erase s.turns

/-- A procedure on the store. -/
def onStore {α : Type} : Procedure PageStore α → Procedure SharedStore α :=
  within store fun store s => { s with store }

end SharedStore

/-- Takes the step of a stage, if what it waits for is free. -/
def PageStage.advance (k : PageStage) : Procedure SharedStore PageStage := do
  if k.awaits.all (← memory).grants then
    let k' ← SharedStore.onStore k.act
    update (·.pass k k')
    return k'
  return k

namespace PageStore

/-- How clients share a page store. A client whose call is over can make another one. -/
def sharing : Protocol SharedStore PageCall PageStage where
  start := PageStage.start
  advance := PageStage.advance
  fail fault := .ended (.error fault)
  isFree
    | .ended _ => true
    | _ => false

/-- Clients of a page store, none of which is in a call. -/
def unused (host : Host) (store : PageStore) : Crowd SharedStore PageStage :=
  ⟨⟨host, { store }⟩, fun _ => .ended (.ok .done)⟩

end PageStore

/-! ## Leases -/

/-- A user that a client has counted on a page, and the number for which it asked. -/
structure PageLease where
  client : Nat
  index : Nat
  id : PageId
  deriving DecidableEq, Repr

namespace PageStage

/-- The number and the page on which a user has just been counted. -/
def granted? : PageStage → Option (Nat × PageId)
  | .touchFound index _ id | .leaveInsert index _ id => some (index, id)
  | _ => none

end PageStage

/-- The leases once a client has gone from one stage to another. A lease begins when a count is
raised, also that of a page that is put into the cache, and ends when it is lowered. -/
def Event.lend (e : Event PageStage) (leases : List PageLease) : List PageLease :=
  match e.before with
  | .raiseCount _ _ _ | .putPage _ _ _ =>
    (e.after.granted?.map fun (index, id) => ⟨e.client, index, id⟩).toList ++ leases
  | .lowerCount _ id => leases.eraseP fun lease => lease.client = e.client ∧ lease.id = id
  | _ => leases

namespace PageStore

/-- The leases that began and have not ended. -/
def outstanding (trace : List (Event PageStage)) : List PageLease :=
  trace.foldl (fun leases e => e.lend leases) []

end PageStore

/-- How many leases of a page there are. -/
def PageStore.usersOf (leases : List PageLease) (id : PageId) : Nat := leases.countP (·.id = id)

/-- Whether a client may make a call: what it gives back it has acquired. -/
def PageCall.Allowed (leases : List PageLease) (client : Nat) : PageCall → Prop
  | .giveBack id => ∃ lease ∈ leases, lease.client = client ∧ lease.id = id
  | .release index => ∃ lease ∈ leases, lease.client = client ∧ lease.index = index
  | _ => True

instance (leases : List PageLease) (client : Nat) (call : PageCall) :
    Decidable (call.Allowed leases client) := by
  unfold PageCall.Allowed
  split <;> infer_instance

namespace PageStore

/-- How clients may use a page store, with the events that happened on the way. -/
inductive Leasing (w : Crowd SharedStore PageStage) :
    List (Event PageStage) → Crowd SharedStore PageStage → Prop
  | rest : Leasing w [] w
  | call {trace : List (Event PageStage)} {v : Crowd SharedStore PageStage} {client : Nat}
    {call : PageCall} :
    Leasing w trace v → sharing.isFree (v.stage client) = true →
      call.Allowed (outstanding trace) client →
      Leasing w (trace ++ [⟨client, v.stage client, PageStage.start call⟩])
        (sharing.call v client call)
  | take {trace : List (Event PageStage)} {v : Crowd SharedStore PageStage} (client : Nat) :
    Leasing w trace v →
      Leasing w (trace ++ [⟨client, v.stage client, (sharing.take v client).stage client⟩])
        (sharing.take v client)

end PageStore

end PagedQueue
