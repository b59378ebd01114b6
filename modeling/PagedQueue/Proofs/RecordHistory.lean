import Mathlib.Logic.Relation
import PagedQueue.Proofs.QueueWrites

/-!
# The history of the records

A queue is loaded where nothing is, called, closed and opened anew in any order. What one operation
does to the files is told by what it answers (`QueueStep.Effect`): a message that is put in takes
the next slot, a message that moves has its status written over, and nothing else replaces a byte of
any file (`QueueStep.run_leads`). So the records only become more, and each of them keeps all but
its status, which goes along the moves (`Queue.Later`); a tombstone stays as it is.

A queue that was closed is a queue that is open but for the mark that it is closed (`Queue.Rests`).
-/

namespace PagedQueue

open Procedure
open PageStore (Touches Nowhere)
open Record (place statusOffset)
open MessageIndex (Becomes Holding Reads Stands Unreadable bytesOf pagesOf reachOf)

/-! ## What is done with a queue -/

/-- What is done with a queue: it is called, closed or opened anew, its records are read, or it is
asked what it occupies on disk. -/
inductive QueueStep where
  | act (action : QueueAction)
  | records
  | footprint
  | close

/-- What is answered. -/
inductive StepAnswer where
  | act (value : QueueAnswer)
  | records (value : List Record)
  | footprint (value : Footprint)
  | closed

namespace QueueStep

/-- What an operation does with the queue. -/
def run : QueueStep → Procedure Queue StepAnswer
  | act action => return .act (← action.run)
  | records => return .records (← Queue.records)
  | footprint => return .footprint (← Queue.footprint)
  | close => do
    Queue.close
    return .closed

/-- What is answered to an operation. -/
def answer (step : QueueStep) (s : Session Queue) : Except Fault StepAnswer :=
  (step.run.outcome s).1

/-- What an operation leaves, whether it succeeds or fails. -/
def next (step : QueueStep) (s : Session Queue) : Session Queue := (step.run.outcome s).2

/-- Nothing is discarded, and a push is only made while there is room for its record and its
payload. -/
def Fits (s : Session Queue) : QueueStep → Prop
  | act (.call .startEmpty) => False
  | act action => action.Fits s.memory.recordCount s.memory.payloads.cursor
  | records | footprint | close => True

/-- What operations leave that follow one another. -/
def after : List QueueStep → Session Queue → Session Queue
  | [], s => s
  | step :: rest, s => after rest (step.next s)

/-- Nothing is discarded by operations that follow one another, and there is room for every push. -/
def AllFit : List QueueStep → Session Queue → Prop
  | [], _ => True
  | step :: rest, s => step.Fits s ∧ AllFit rest (step.next s)

end QueueStep

namespace Queue

/-! ## What happens to the files -/

/-- Of all bytes in the files only those at the offsets `records` and `payloads` were replaced. -/
structure Rewrites (records payloads : Nat → Prop) (s t : Session Queue) : Prop where
  directory : t.memory.settings.directory = s.memory.settings.directory
  pageSize : t.memory.settings.pageSize = s.memory.settings.pageSize
  bytes : ∀ {path o byte},
    ¬ Disk.PlaceOf (recordDirectory s.memory.settings) s.memory.settings.pageSize records path o →
    ¬ Disk.PlaceOf (payloadDirectory s.memory.settings) s.memory.settings.pageSize payloads path o →
    s.host.disk.byteAt? path o = some byte → t.host.disk.byteAt? path o = some byte
  recordBytes : ∀ o, ¬ records o → Queue.recordBytes t o = Queue.recordBytes s o
  payloadBytes : ∀ o, ¬ payloads o → Queue.payloadBytes t o = Queue.payloadBytes s o

variable {records payloads : Nat → Prop} {s t u : Session Queue} {l : Ledger} {layout : Nat → Nat}
  {m : Message} {p : Nat} {i : Item} {id : EntryId}

/-- What changes a queue rewrites the bytes of its files. -/
theorem Changes.rewrites (h : Changes records payloads s t) : Rewrites records payloads s t where
  directory := congrArg Settings.directory h.settings
  pageSize := congrArg Settings.pageSize h.settings
  bytes := h.bytes
  recordBytes := h.recordBytes
  payloadBytes := h.payloadBytes

namespace Rewrites

/-- Nothing is replaced where the disk stays. -/
theorem of_disk (hdisk : t.host.disk = s.host.disk)
    (hdirectory : t.memory.settings.directory = s.memory.settings.directory)
    (hpageSize : t.memory.settings.pageSize = s.memory.settings.pageSize) :
    Rewrites records payloads s t where
  directory := hdirectory
  pageSize := hpageSize
  bytes _ _ hbyte := hdisk ▸ hbyte
  recordBytes o _ := by
    rw [Queue.recordBytes, Queue.recordDirectory, hdisk, hdirectory, hpageSize, Queue.recordBytes,
      Queue.recordDirectory]
  payloadBytes o _ := by
    rw [Queue.payloadBytes, Queue.payloadDirectory, hdisk, hdirectory, hpageSize,
      Queue.payloadBytes, Queue.payloadDirectory]

theorem refl (s : Session Queue) : Rewrites records payloads s s := .of_disk rfl rfl rfl

/-- One rewriting after another is one. -/
theorem trans (h : Rewrites records payloads s t) (h' : Rewrites records payloads t u) :
    Rewrites records payloads s u where
  directory := h'.directory.trans h.directory
  pageSize := h'.pageSize.trans h.pageSize
  bytes hrecords hpayloads hbyte := by
    refine h'.bytes ?_ ?_ (h.bytes hrecords hpayloads hbyte)
    · rwa [recordDirectory, h.directory, h.pageSize]
    · rwa [payloadDirectory, h.directory, h.pageSize]
  recordBytes o ho := (h'.recordBytes o ho).trans (h.recordBytes o ho)
  payloadBytes o ho := (h'.payloadBytes o ho).trans (h.payloadBytes o ho)

/-- No record byte differs where none was rewritten. -/
theorem recordBytes_eq (h : Rewrites Nowhere payloads s t) :
    Queue.recordBytes t = Queue.recordBytes s := funext fun o => h.recordBytes o id

end Rewrites

/-- The message was put in: the record in the next slot, its payload where the next one goes. -/
structure Entered (m : Message) (s t : Session Queue) : Prop where
  rewrites : Rewrites (Record.Slot (recordBytes s).covered)
    (InRange s.memory.payloads.cursor m.size) s t
  recordBytes_eq : recordBytes t = ((recordBytes s).write (place (recordBytes s).covered)
    (Record.make m.uuid (.ofNat s.memory.payloads.cursor)
    (.ofNat m.size) .new m.kind.tag).encode).write 0
      (encodeInt32 (.ofNat ((recordBytes s).covered + 1)))
  payloadBytes_eq : payloadBytes t = (payloadBytes s).write s.memory.payloads.cursor m.payload

/-- The message was moved: the status of its record is written over. -/
structure Moved (k : Move) (m : Message) (p : Nat) (s t : Session Queue) : Prop where
  lt_covered : p < (recordBytes s).covered
  uuid_eq : ((recordBytes s).recordAt p).uuid = m.uuid
  status_eq : ((recordBytes s).recordAt p).status = k.source.tag
  rewrites : Rewrites (InRange (place p + statusOffset) 4) Nowhere s t
  recordBytes_eq : recordBytes t
    = (recordBytes s).write (place p + statusOffset) (encodeInt32 k.target.tag)

end Queue

open Queue (Entered Moved Rewrites)

/-- What a call that was answered so has done to the files. -/
def QueueCall.Effect (s t : Session Queue) : QueueCall → Except Fault QueueAnswer → Prop
  | .push m, .ok (.isNew true) => Entered m s t
  | .lock _, .ok (.message (some m)) => ∃ p, Moved .lock m p s t
  | .pop, .ok (.message (some m)) => ∃ p, Moved .lock m p s t
  | .finish _, .ok (.message (some m)) => ∃ p, Moved .finish m p s t
  | .rollback _, .ok (.message (some m)) => ∃ p, Moved .rollback m p s t
  | _, _ => Rewrites Nowhere Nowhere s t

/-- What an operation that was answered so has done to the files. -/
def QueueStep.Effect (s t : Session Queue) : QueueStep → Except Fault StepAnswer → Prop
  | .act (.call c), .ok (.act value) => c.Effect s t (.ok value)
  | _, _ => Rewrites Nowhere Nowhere s t

/-! ## What becomes of a record -/

/-- All of a record stays but its status, which goes along moves of a message. -/
structure Record.GoesOn (r r' : Record) : Prop where
  eq : r' = { r with status := r'.status }
  moves : Relation.ReflTransGen (fun a b => ∃ k : Move, a = k.source.tag ∧ b = k.target.tag)
    r.status r'.status

namespace Record.GoesOn

variable {r r' r'' : Record}

theorem refl (r : Record) : GoesOn r r := ⟨rfl, .refl⟩

/-- A record that goes on from one that goes on goes on from the first. -/
theorem trans (h : GoesOn r r') (h' : GoesOn r' r'') : GoesOn r r'' := by
  refine ⟨?_, h.moves.trans h'.moves⟩
  rw [h'.eq, h.eq]

/-- A move takes the status of a record on and leaves its other fields. -/
theorem move (k : Move) (hstatus : r.status = k.source.tag) :
    GoesOn r { r with status := k.target.tag } :=
  ⟨rfl, .single ⟨k, hstatus, rfl⟩⟩

/-- No move leads away from a tombstone. -/
theorem of_tombstone (h : GoesOn r r') (hdeleted : r.status = Status.deleted.tag) : r' = r := by
  rcases h.moves.cases_head with heq | ⟨_, ⟨k, hsource, -⟩, -⟩
  · rw [h.eq, ← heq]
  · rw [hdeleted] at hsource
    cases k <;> exact absurd hsource (by decide)

end Record.GoesOn

namespace Queue

/-- The count has not sunk, and every record that it covered has gone on. -/
structure Later (s t : Session Queue) : Prop where
  count_le : (recordBytes s).count.toInt ≤ (recordBytes t).count.toInt
  record : ∀ p < (recordBytes s).covered, ((recordBytes s).recordAt p).GoesOn
    ((recordBytes t).recordAt p)

variable {records payloads : Nat → Prop} {s t u : Session Queue} {l l' : Ledger}
  {layout layout' : Nat → Nat} {m : Message} {p : Nat} {i : Item} {id : EntryId}

theorem Later.refl (s : Session Queue) : Later s s := ⟨Int.le_refl _, fun _ _ => .refl _⟩

/-- Of three sessions the last is later than the first. -/
theorem Later.trans (h : Later s t) (h' : Later t u) : Later s u where
  count_le := Int.le_trans h.count_le h'.count_le
  record p hp := (h.record p hp).trans
    (h'.record p (Nat.lt_of_lt_of_le hp (Int.toNat_le_toNat h.count_le)))

/-- A session with the same record bytes is a later one. -/
theorem Rewrites.later (h : Rewrites Nowhere payloads s t) : Later s t := by
  constructor
  · exact Int.le_of_eq (by rw [h.recordBytes_eq])
  · intro p _
    rw [h.recordBytes_eq]
    exact .refl _

/-- So is one that entered a message, since its record was not covered before. -/
theorem Entered.later (h : Entered m s t) (hroom : (recordBytes s).covered < 0x7FFFFFFF) :
    Later s t := by
  have hraised : (Int32.ofNat ((recordBytes s).covered + 1)).toInt = (recordBytes s).covered + 1 :=
    Int32.toInt_ofNat_of_lt (by omega)
  constructor
  · rw [h.recordBytes_eq, ByteSpace.count_write_count, hraised, ByteSpace.covered]
    omega
  · intro p hp
    rw [h.recordBytes_eq, ByteSpace.recordAt_write_count, ByteSpace.recordAt_write_of_disjoint]
    · exact .refl _
    · exact .inl (ByteSpace.place_add_size_le hp)

/-- So is one that moved a message. -/
theorem Moved.later {k : Move} (h : Moved k m p s t) : Later s t := by
  constructor
  · exact Int.le_of_eq (by rw [h.recordBytes_eq, ByteSpace.count_write_status])
  · intro q _
    rw [h.recordBytes_eq]
    by_cases hq : p = q
    · subst hq
      rw [ByteSpace.recordAt_write_status]
      exact .move k h.status_eq
    · rw [ByteSpace.recordAt_write_status_of_ne hq]
      exact .refl _

/-! ## What the calls do -/

/-- The stored count covers one record for each item. -/
theorem Tracks.covered_eq (h : Tracks l layout s) : (recordBytes s).covered = l.items.length := by
  have hcount : (recordBytes s).count.toInt = l.items.length := h.kept.records.count
  rw [ByteSpace.covered, hcount, Int.toNat_natCast]

theorem Tracks.mounted (h : Tracks l layout s) : Mounted s := h.toOpened.mounted

/-- The way to the files of a tracked queue is clear. -/
theorem Tracks.clear (h : Tracks l layout s) : s.host.disk.Clear (rootOf s.memory.settings) :=
  Disk.Stored.clear h.kept

/-- The payload of an entry in the queue can be read. -/
theorem Tracks.readable (h : Tracks l layout s) (hid : s.memory.index.ordered[p]? = some id) :
    Readable s (s.memory.index.entry id) := by
  obtain ⟨i, hstands⟩ := MessageIndex.Holds.stands h.index.holds hid
  have hentry : s.memory.index.entry id = i.toEntry p (layout p) := hstands.entry
  obtain ⟨hoffset, -⟩ := h.extent hstands.item
  have hplaced := h.kept.records.placed (Items.lt_length hstands.item)
  have hlength := (i.toEntry p (layout p)).length.toNat_lt
  rw [hentry]
  refine ⟨?_, .inl h.clear⟩
  rw [hoffset]
  omega

/-- Reading a message, if there is one, replaces nothing. -/
theorem readMessage?_rewrites (h : Tracks l layout s) {found : Option EntryId}
    (hfound : ∀ id, found = some id → ∃ p : Nat, s.memory.index.ordered[p]? = some id) :
    (readMessage? found).Ensures s fun _ t => Rewrites Nowhere Nowhere s t := by
  unfold Ensures
  cases found with
  | none => exact .refl s
  | some id =>
    obtain ⟨p, hid⟩ := hfound id rfl
    simp only [readMessage?, leads_bind, leads_pure]
    exact (readMessage_of_mounted h.mounted id (h.readable hid)).leads.mono
      (fun _ _ ht => ht.2.1.rewrites) fun _ _ => False.elim

/-- A push has its effect on the record bytes, or leaves them as they were. -/
theorem push_effect (h : Tracks l layout s) (m : Message) (hlength : l.items.length < 0x7FFFFFFF)
    (hstop : l.stop < 0x8000000000000000) :
    (push m).Leads s (fun answer t => (QueueCall.push m).Effect s t (.ok (.isNew answer)))
      fun _ t => Rewrites Nowhere Nowhere s t := by
  have hcount : s.memory.index.count = l.items.length := h.index.count_eq
  have hnext : s.memory.index.next = l.items.length := h.index.next_eq
  have hcovered := h.covered_eq
  have hbelow (hshort : m.size ≤ maxPayload) :
      s.memory.payloads.cursor + m.size ≤ 0x10000000000000000 := by
    rw [h.cursor]
    rw [maxPayload] at hshort
    omega
  refine (push_writes h.mounted m (by omega) (by omega) hbelow).mono ?_ ?_
  · intro answer t ht
    rcases ht with ⟨rfl, -, -, -, ht⟩ | ⟨rfl, hhost, hmemory⟩
    · have hrecords := ht.recordBytes_eq
      have hchanges := ht.changes.rewrites
      rw [hnext, ← hcovered] at hrecords hchanges
      exact ⟨hchanges, hrecords, ht.payloadBytes_eq⟩
    · exact .of_disk (congrArg Host.disk hhost) (by rw [hmemory]) (by rw [hmemory])
  · intro _ t ht
    rcases ht with rfl | hblocked
    · exact .refl t
    · exact absurd h.clear hblocked.2.2.1

end Queue

open Queue in
/-- A call that moves a message writes the status of its record over, and nothing else. -/
theorem StatusCall.run_effect {l : Ledger} {layout : Nat → Nat} {s : Session Queue}
    (h : Tracks l layout s) (c : StatusCall) :
    c.run.Ensures s fun answer t => answer = none ∧ Rewrites Nowhere Nowhere s t
      ∨ ∃ m p, answer = some m ∧ Moved c.kind m p s t := by
  have hholds : s.memory.index.Holds (l.items.held layout) := h.index.holds
  have hstands (id : EntryId) (hselected : c.selected? s.memory.index = some id) :
      ∃ p i, Stands s.memory.index l.items layout p i id := by
    obtain ⟨p, hid⟩ := exists_position hholds hselected
    obtain ⟨i, hi⟩ := hholds.stands hid
    exact ⟨p, i, hi⟩
  have hposition (id : EntryId) (hselected : c.selected? s.memory.index = some id) :
      (s.memory.index.entry id).position < 0x80000000 := by
    obtain ⟨p, i, hi⟩ := hstands id hselected
    rw [hi.entry]
    exact Nat.lt_trans (Items.lt_length hi.item) h.length_lt
  refine (move_writes h.mounted c hholds.indexed hposition
    (fun _ _ hunreadable => h.mounted.not_clear_of_unreadable hunreadable h.clear)
    fun id hselected => ?_).mono ?_
  · obtain ⟨p, hid⟩ := exists_position hholds hselected
    exact h.readable hid
  · intro answer t ht
    rcases ht with ⟨rfl, rfl, -⟩ | ⟨id, m, rfl, huuid, hselected, hchanges, hrecords, -, -⟩
    · exact .inl ⟨rfl, .refl t⟩
    · obtain ⟨p, i, hi⟩ := hstands id hselected
      have hrecord : (recordBytes s).recordAt p = (i.toEntry p (layout p)).toRecord :=
        h.kept.records.record hi.item
      have hplace : s.memory.index.statusPlace id = place p + statusOffset := by
        rw [MessageIndex.statusPlace, hi.entry]
        rfl
      have hstatus := status_of_selected hselected
      rw [hi.entry] at huuid hstatus
      rw [hplace] at hchanges hrecords
      refine .inr ⟨m, p, rfl, ?_, ?_, ?_, hchanges.rewrites, hrecords⟩
      · rw [h.covered_eq]
        exact Items.lt_length hi.item
      · rw [hrecord, Item.uuid_toRecord, huuid]
        rfl
      · rw [hrecord, ← hstatus]
        rfl

namespace QueueCall

open Queue

variable {l : Ledger} {layout : Nat → Nat} {s : Session Queue}

/-- A call that moves a message answers with the message if it has moved it. -/
private theorem run_effect_of_move (h : Tracks l layout s) {c : QueueCall} {k : StatusCall}
    (hrun : c.run = do return .message (← k.run))
    (hnone : ∀ t, Rewrites Nowhere Nowhere s t → c.Effect s t (.ok (.message none)))
    (hsome : ∀ t m p, Moved k.kind m p s t → c.Effect s t (.ok (.message (some m)))) :
    c.run.Leads s (fun value t => c.Effect s t (.ok value)) fun _ t =>
      Rewrites Nowhere Nowhere s t := by
  rw [hrun]
  simp only [leads_bind, leads_pure]
  refine (k.run_effect h).leads.mono ?_ fun _ _ => False.elim
  intro answer t ht
  rcases ht with ⟨rfl, ht⟩ | ⟨m, p, rfl, ht⟩
  · exact hnone t ht
  · exact hsome t m p ht

/-- What a call does to the files of an open queue shows in its answer. -/
theorem run_effect (h : Tracks l layout s) (c : QueueCall) (hfits : c.Fits l.items.length l.stop)
    (hkept : c ≠ .startEmpty) :
    c.run.Leads s (fun value t => c.Effect s t (.ok value)) fun _ t =>
      Rewrites Nowhere Nowhere s t := by
  have hrecords := h.recordReady.coherent
  have hpayloads := h.payloadReady.coherent
  have hquiet {t : Session Queue} (hq : Quiet s t) : Rewrites Nowhere Nowhere s t :=
    (h.mounted.quiet hq).rewrites
  cases c with
  | push m =>
    simp only [run, leads_bind, leads_pure]
    exact push_effect h m hfits.1 hfits.2
  | get uuid =>
    simp only [run, Queue.get?, leads_bind, leads_pure]
    rw [leads_ensureOpen h.isOpen, leads_memory]
    exact (readMessage?_rewrites h fun id hid =>
      ((MessageIndex.Holds.find?_eq_some_iff h.index.holds).mp hid).imp fun _ hp => hp.1).leads
  | peek =>
    simp only [run, Queue.peek?, leads_bind, leads_pure]
    rw [leads_ensureOpen h.isOpen, leads_memory]
    exact (readMessage?_rewrites h fun id hid =>
      MessageIndex.exists_position_of_oldestNew? hid).leads
  | lock uuid =>
    exact run_effect_of_move (k := .move .lock uuid) h rfl (fun _ => id) fun _ _ p hp => ⟨p, hp⟩
  | pop => exact run_effect_of_move (k := .pop) h rfl (fun _ => id) fun _ _ p hp => ⟨p, hp⟩
  | finish uuid =>
    exact run_effect_of_move (k := .move .finish uuid) h rfl (fun _ => id) fun _ _ p hp => ⟨p, hp⟩
  | rollback uuid =>
    exact run_effect_of_move (k := .move .rollback uuid) h rfl (fun _ => id) fun _ _ p hp => ⟨p, hp⟩
  | status uuid => exact .refl s
  | size => exact .refl s
  | recordCount => exact .refl s
  | flush =>
    simp only [run, Queue.flush, leads_bind, leads_pure]
    rw [leads_ensureOpen h.isOpen]
    exact (flushFiles_quiet hrecords hpayloads).leads.mono (fun _ _ => hquiet) fun _ _ => False.elim
  | checkpoint =>
    simp only [run, leads_bind, leads_pure]
    exact (checkpoint_quiet hrecords hpayloads h.kept.sound).leads.mono (fun _ _ => hquiet)
      fun _ _ => False.elim
  | recover =>
    simp only [run, leads_bind, leads_pure]
    exact ((recover_leads h.mounted).and (recover_ensures h.toOpened h.started).leads).mono
      (fun _ _ ht => ht.1.changes.rewrites) fun _ _ hand => False.elim hand.2
  | startEmpty => exact absurd rfl hkept

end QueueCall

/-! ## Reading the records, and what is occupied -/

namespace MessageIndex

/-- Records are read where they are. -/
theorem mapM_readRecord_leads {s : Session MessageIndex} (hready : PageStore.Ready (pagesOf s))
    (positions : List Nat) :
    (positions.mapM readRecord).Leads s
      (fun found u => found = positions.map (bytesOf s).recordAt
        ∧ Reads (fun o => ∃ p ∈ positions, InRange (place p) Record.size o) s u
        ∧ u.memory = { s.memory with file := u.memory.file })
      fun _ _ => Unreadable (fun o => ∃ p ∈ positions, InRange (place p) Record.size o) s := by
  induction positions generalizing s with
  | nil => exact ⟨rfl, ⟨.refl hready, rfl⟩, rfl⟩
  | cons first rest ih =>
    simp only [List.mapM_cons, leads_bind, leads_pure]
    refine (readRecord_leads hready first).mono ?_ ?_
    · intro _ t ht
      obtain ⟨rfl, ht, -, hmemory⟩ := ht
      have hread : Reads (fun o => ∃ p ∈ first :: rest, InRange (place p) Record.size o) s t :=
        ⟨ht.touches.mono (fun _ ho => ⟨first, List.mem_cons_self, ho⟩) fun _ => id, ht.length_eq⟩
      refine (ih ht.touches.ready).mono ?_ ?_
      · intro _ u hu
        obtain ⟨rfl, hu, hmemory'⟩ := hu
        refine ⟨?_, hread.trans ⟨hu.touches.mono ?_ fun _ => id, hu.length_eq⟩, ?_⟩
        · rw [List.map_cons, ht.bytesOf_eq]
        · intro o ho
          obtain ⟨p, hp, ho⟩ := ho
          exact ⟨p, List.mem_cons_of_mem _ hp, ho⟩
        · rw [hmemory', hmemory]
      · intro _ _ hunreadable
        refine hread.unreadable ?_
        obtain ⟨o, ⟨p, hp, ho⟩, hblocked⟩ := hunreadable
        exact ⟨o, ⟨p, List.mem_cons_of_mem _ hp, ho⟩, hblocked⟩
    · intro _ _ hunreadable
      obtain ⟨o, ho, hblocked⟩ := hunreadable
      exact ⟨o, ⟨first, List.mem_cons_self, ho⟩, hblocked⟩

end MessageIndex

namespace Queue

variable {l : Ledger} {layout : Nat → Nat} {s t : Session Queue}

/-- Where only records below the count are read, the queue goes on with the messages there are. -/
theorem Tracks.goes_of_reads (h : Tracks l layout s) {u : Session MessageIndex}
    (hread : Touches (fun o => o < place l.items.length) Nowhere (pagesOf (indexOf s)) (pagesOf u))
    (hmemory : u.memory = { s.memory.index with file := u.memory.file }) :
    Goes l.items layout l layout s ⟨u.host, { s.memory with index := u.memory }⟩ := by
  have hrecords (d : Disk) (hd : Disk.Confined s.memory.index.file.store.directory
      s.memory.index.file.store.pageSize
      (fun o => o < place l.items.length) Nowhere s.host.disk d) :
      Holding (indexOf s) l.items layout d := by
    refine Disk.Records.confined h.index.records hd (fun o ho => ?_) fun o _ => hd.space_eq o id
    have hlength := h.length_lt
    simp only [place, Record.size, Record.countSize] at ho
    omega
  have hsame := hread.same
  have hheld : Holding u l.items layout u.host.disk := by
    have hlast := hrecords _ hread.last
    rw [Holding] at hlast ⊢
    rwa [show u.memory.file.store.directory = _ from hsame.directory,
      show u.memory.file.store.pageSize = _ from hsame.pageSize]
  refine h.turn ⟨hread.turns fun d hd => .inl (hrecords d hd), ⟨hread.ready, hheld, ?_, ?_, ?_⟩, ?_⟩
    h.kept.wellFormed h.kept.payloads h.behind ?_
  · exact h.index.holds.congr (by rw [hmemory]; rfl) (by rw [hmemory]; rfl) (by rw [hmemory]; rfl)
  · rw [hmemory]
    exact h.index.count_eq
  · rw [hmemory]
    exact h.index.next_eq
  · rw [hmemory]
    rfl
  · have hle : s.host.disk.reach s.memory.index.file.store.directory
        s.memory.index.file.store.pageSize
        ≤ u.host.disk.reach s.memory.index.file.store.directory
        s.memory.index.file.store.pageSize :=
      h.index.records.tidy.reach_le (hrecords _ hread.last).tidy fun _ => hread.last.hasPage
    have hstarted : 0 < reachOf (indexOf s) := Nat.pos_of_ne_zero h.started
    rw [reachOf, show u.memory.file.store.directory = _ from hsame.directory,
      show u.memory.file.store.pageSize = _ from hsame.pageSize]
    exact Nat.ne_of_gt (Nat.lt_of_lt_of_le hstarted hle)

/-- The records are read, and nothing is replaced. -/
theorem records_ensures (h : Tracks l layout s) :
    Queue.records.Ensures s fun found t => found = (List.range l.items.length).map
      (recordBytes s).recordAt
      ∧ Rewrites Nowhere Nowhere s t ∧ Goes l.items layout l layout s t := by
  have hcount : s.memory.index.count = l.items.length := h.index.count_eq
  unfold Queue.records MessageIndex.records onIndex Ensures
  simp only [leads_bind]
  rw [leads_ensureOpen h.isOpen]
  simp only [leads_within, leads_bind, leads_memory, Session.memory_part, hcount]
  refine (MessageIndex.mapM_readRecord_leads (s := indexOf s) h.recordReady _).mono ?_
    fun _ _ hunreadable => h.mounted.not_clear_of_unreadable hunreadable h.clear
  intro _ u hu
  obtain ⟨rfl, hread, hmemory⟩ := hu
  have htouches : Touches (fun o => o < place l.items.length) Nowhere (pagesOf (indexOf s))
      (pagesOf u) := by
    refine hread.touches.mono (fun o ho => ?_) fun _ => id
    obtain ⟨p, hp, ho⟩ := ho
    exact Nat.lt_of_lt_of_le ho.2 (ByteSpace.place_add_size_le (List.mem_range.mp hp))
  refine ⟨?_, (h.mounted.onRecords htouches fun o ho => ?_).rewrites,
    h.goes_of_reads htouches hmemory⟩
  · rw [show bytesOf (indexOf s) = recordBytes s from h.mounted.contents_records]
  · have hlength := h.length_lt
    refine Disk.div_le_maxIndex ?_
    simp only [place, Record.size, Record.countSize] at ho
    omega

/-- Asking what is occupied leaves everything as it is. -/
theorem footprint_ensures
    (hrecords : s.host.disk.node? s.memory.index.file.store.directory = some .directory)
    (hpayloads : s.host.disk.node? s.memory.payloads.file.store.directory = some .directory) :
    Queue.footprint.Ensures s fun found t => t = s ∧ found.cursor = s.memory.payloads.cursor := by
  have hindexes {u : Session PageStore}
      (hu : u.host.disk.node? u.memory.directory = some .directory) :
      PageStore.pageIndexes.Ensures u fun _ v => v = u :=
    (PageStore.pageIndexes_ensures hu).mono fun _ _ hv => hv.1
  have hsize {u : Session PageStore} (hu : u.host.disk.node? u.memory.directory = some .directory) :
      PageStore.totalSize.Ensures u fun _ v => v = u := by
    unfold PageStore.totalSize Ensures
    simp only [leads_bind, leads_disk, leads_pure]
    exact (PageStore.pageEntries_ensures hu).mono fun _ _ hv => hv.1
  unfold Queue.footprint onRecordPages onPayloadPages onIndex onPayloads MessageIndex.onFile
    PayloadLog.onFile PagedFile.onStore Ensures
  simp only [leads_bind, leads_within, leads_memory, leads_pure]
  refine (hindexes (u := pagesOf (indexOf s)) hrecords).leads.mono ?_ fun _ _ => False.elim
  intro _ _ heq
  subst heq
  refine (hindexes (u := payloadPagesOf s) hpayloads).leads.mono ?_ fun _ _ => False.elim
  intro _ _ heq
  subst heq
  refine (hsize (u := pagesOf (indexOf s)) hrecords).leads.mono ?_ fun _ _ => False.elim
  intro _ _ heq
  subst heq
  refine (hsize (u := payloadPagesOf s) hpayloads).leads.mono ?_ fun _ _ => False.elim
  intro _ _ heq
  subst heq
  exact ⟨rfl, rfl⟩

/-! ## Open and closed queues -/

/-- The queue as it would be if it were not closed. -/
def asOpen (s : Session Queue) : Session Queue := ⟨s.host, { s.memory with isClosed := false }⟩

theorem asOpen_of_open (h : s.memory.isClosed = false) : asOpen s = s := by
  rw [asOpen, ← h]

/-- The queue tracks the ledger and no push is under way, whether it is open or closed. -/
def Rests (l : Ledger) (layout : Nat → Nat) (s : Session Queue) : Prop := AtRest l layout (asOpen s)

theorem AtRest.rests (h : AtRest l layout s) : Rests l layout s := by
  rwa [Rests, asOpen_of_open h.isOpen]

namespace Rests

/-- An open queue at rest answers its calls. -/
theorem atRest (h : Rests l layout s) (hopen : s.memory.isClosed = false) : AtRest l layout s := by
  rwa [Rests, asOpen_of_open hopen] at h

/-- What shows nowhere keeps a queue at rest. -/
theorem quiet (h : Rests l layout s) (hq : Quiet (asOpen s) (asOpen t)) : Rests l layout t :=
  (h.toTracks.quiet hq).atRest h.idle

/-- A queue that is closed is at rest. -/
theorem shut (h : Rests l layout s) : Rests l layout ⟨s.host, s.memory.shut⟩ := by
  unfold Queue.shut
  split
  next => exact h
  next =>
    have hrecords := h.recordReady.coherent
    have hpayloads := h.payloadReady.coherent
    refine h.quiet ⟨.start rfl, rfl, rfl, rfl, rfl, ?_, ?_, PageStore.coherent_dropAll _ _,
      PageStore.coherent_dropAll _ _⟩
    · exact (PageStore.same_flush _).trans (PageStore.same_dropAll _)
    · exact (PageStore.same_flush _).trans (PageStore.same_dropAll _)

end Rests

/-- A closed queue refuses to go on. -/
theorem leads_ensureOpen_of_closed (hclosed : s.memory.isClosed = true)
    {done : Unit → Session Queue → Prop}
    {failed : Fault → Session Queue → Prop} :
    ensureOpen.Leads s done failed ↔ failed .closed s := by
  simp only [ensureOpen, leads_bind, leads_memory, hclosed, if_true, leads_throw]

end Queue

/-! ## One operation -/

open Queue (AtRest Rests asOpen)

variable {l : Ledger} {layout : Nat → Nat} {s : Session Queue}

/-- A closed queue refuses all calls but those that ask for numbers and states. -/
theorem QueueCall.run_closed (h : Rests l layout s) (hclosed : s.memory.isClosed = true)
    (c : QueueCall) :
    c.run.Leads s (fun value t => c.Effect s t (.ok value) ∧ Rests l layout t) fun _ t =>
      t = s := by
  cases c with
  | status | size | recordCount => exact ⟨.refl s, h⟩
  | checkpoint =>
    simp only [run, leads_bind, leads_pure]
    have hrecords : s.memory.index.file.store.Coherent s.host.disk := h.recordReady.coherent
    have hpayloads : s.memory.payloads.file.store.Coherent s.host.disk := h.payloadReady.coherent
    have hsound : s.host.disk.Sound := h.kept.sound
    refine (Queue.checkpoint_quiet hrecords hpayloads hsound).leads.mono ?_ fun _ _ => False.elim
    intro _ t ht
    have hopened : Queue.Quiet (asOpen s) (asOpen t) := { ht with isClosed := rfl }
    exact ⟨.of_disk ht.disk_eq (by rw [ht.settings]) (by rw [ht.settings]), h.quiet hopened⟩
  | push | get | lock | pop | peek | finish | rollback | flush | recover | startEmpty =>
    simp only [run, Queue.push, Queue.get?, Queue.lock, Queue.pop, Queue.peek?, Queue.finish,
      Queue.rollback, Queue.change, Queue.flush, Queue.recover, Queue.startEmpty, leads_bind]
    rw [Queue.leads_ensureOpen_of_closed hclosed]

/-- A queue that is opened anew, after it was closed or not, finds all as it was. -/
theorem Queue.reopen_leads (h : Rests l layout s) (closing : Bool) (policy : Policy) :
    (Queue.reopen closing policy).Ensures s fun _ t =>
      Rewrites Nowhere Nowhere s t ∧ Rests (l.reopened s.memory.settings.pageSize) layout t := by
  -- whatever is in memory, the settings and the disk are those that the open queue had
  have hload (memory : Queue) : (load (policy.onSettings s.memory.settings)).Ensures
      ⟨s.host, memory⟩
      fun q t => Rewrites Nowhere Nowhere s ⟨t.host, q⟩
        ∧ Rests (l.reopened s.memory.settings.pageSize) layout ⟨t.host, q⟩ := by
    have htracks : Tracks l layout (asOpen s) := h.toTracks
    have hstarted :
        s.host.disk.reach (recordDirectory s.memory.settings) s.memory.settings.pageSize ≠ 0 :=
      htracks.reachOf_eq ▸ htracks.started
    refine ((load_leads (s := ⟨s.host, memory⟩) (policy.validate_onSettings htracks.valid)
      htracks.kept.grounds hstarted).and (load_ensures_of_tracks htracks policy memory).leads).mono
      ?_ fun _ _ hand => False.elim hand.2
    intro q t ht
    obtain ⟨⟨opened, hhost, hsettings, -, hrecovers⟩, hrest, -⟩ := ht
    have hopened : Rewrites Nowhere Nowhere s opened :=
      .of_disk (congrArg Host.disk hhost) (by rw [hsettings]; rfl) (by rw [hsettings]; rfl)
    exact ⟨hopened.trans hrecovers.changes.rewrites, hrest.rests⟩
  unfold Queue.reopen Ensures
  cases closing with
  | true =>
    simp only [if_true, leads_bind, leads_memory, leads_update]
    refine (close_ensures s).leads.mono ?_ fun _ _ => False.elim
    intro _ _ ht
    subst ht
    rw [settings_shut]
    exact hload s.memory.shut
  | false =>
    simp only [Bool.false_eq_true, if_false, leads_bind, leads_memory, leads_update]
    exact hload s.memory

namespace QueueStep

/-- An operation on a queue at rest leaves it at rest, and does to the files what its answer
tells. -/
theorem run_leads (h : Rests l layout s) (step : QueueStep) (hfits : step.Fits s) : ∃ l' layout',
    step.run.attempt.Ensures s fun answer t => step.Effect s t answer ∧ Rests l' layout' t := by
  simp only [ensures_attempt]
  cases step with
  | act action =>
    cases action with
    | call c =>
      cases hclosed : s.memory.isClosed with
      | true =>
        refine ⟨l, layout, ?_⟩
        simp only [run, QueueAction.run, leads_bind, leads_pure]
        refine (c.run_closed h hclosed).mono (fun _ _ => id) ?_
        intro _ _ heq
        subst heq
        exact ⟨.refl _, h⟩
      | false =>
        have hrest := h.atRest hclosed
        have hkept : c ≠ .startEmpty := by
          intro heq
          subst heq
          exact hfits
        have hfits' : c.Fits l.items.length l.stop := by
          rw [← hrest.recordCount_eq, ← hrest.cursor]
          cases c <;> first | exact hfits | exact absurd rfl hkept
        obtain ⟨layout', hcall⟩ := QueueAction.run_ensures hrest (.call c) hfits'
        refine ⟨c.onLedger s.memory.settings.pageSize l, layout', ?_⟩
        simp only [run, QueueAction.run, leads_bind, leads_pure]
        exact ((c.run_effect hrest.toTracks hfits' hkept).and ((ensures_attempt _ _).mp hcall)).mono
          (fun _ _ ht => ⟨ht.1, ht.2.2.1.rests⟩) fun _ _ ht => ⟨ht.1, ht.2.2.1.rests⟩
    | reopen closing policy =>
      refine ⟨l.reopened s.memory.settings.pageSize, layout, ?_⟩
      simp only [run, QueueAction.run, leads_bind, leads_pure]
      exact (Queue.reopen_leads h closing policy).leads
  | records =>
    refine ⟨l, layout, ?_⟩
    cases hclosed : s.memory.isClosed with
    | true =>
      simp only [run, Queue.records, leads_bind]
      rw [Queue.leads_ensureOpen_of_closed hclosed]
      exact ⟨.refl s, h⟩
    | false =>
      have hrest := h.atRest hclosed
      simp only [run, leads_bind, leads_pure]
      refine (Queue.records_ensures hrest.toTracks).leads.mono ?_ fun _ _ => False.elim
      intro _ t ht
      exact ⟨ht.2.1, (ht.2.2.atRest hrest.idle).rests⟩
  | footprint =>
    refine ⟨l, layout, ?_⟩
    have htracks := h.toTracks
    simp only [run, leads_bind, leads_pure]
    refine (Queue.footprint_ensures (s := s) ?_ ?_).leads.mono ?_ fun _ _ => False.elim
    · rw [show s.memory.index.file.store.directory = _ from htracks.recordDirectory]
      exact htracks.kept.grounds.records
    · rw [show s.memory.payloads.file.store.directory = _ from htracks.payloadDirectory]
      exact htracks.kept.grounds.payloads
    · intro _ t ht
      obtain ⟨rfl, -⟩ := ht
      exact ⟨.refl t, h⟩
  | close =>
    refine ⟨l, layout, ?_⟩
    simp only [run, leads_bind, leads_pure]
    refine (Queue.close_ensures s).leads.mono ?_ fun _ _ => False.elim
    intro _ _ ht
    subst ht
    exact ⟨.of_disk rfl (by rw [Queue.settings_shut]) (by rw [Queue.settings_shut]), h.shut⟩

/-- Every step has its effect, and the queue comes to rest again. -/
theorem next_rests (h : Rests l layout s) (step : QueueStep) (hfits : step.Fits s) :
    ∃ l' layout', step.Effect s (step.next s) (step.answer s) ∧ Rests l' layout' (step.next s) := by
  obtain ⟨l', layout', hrun⟩ := step.run_leads h hfits
  exact ⟨l', layout', (ensures_attempt_iff_outcome _ _).mp hrun⟩

/-- What an operation has done to the files lets the records go on. -/
theorem Effect.later {t : Session Queue} {step : QueueStep} {answer : Except Fault StepAnswer}
    (heffect : step.Effect s t answer) (h : Rests l layout s) (hfits : step.Fits s) :
    Queue.Later s t := by
  unfold Effect at heffect
  split at heffect
  next c value =>
    unfold QueueCall.Effect at heffect
    split at heffect
    next m _ =>
      refine heffect.later ?_
      have hcovered : (Queue.recordBytes s).covered = l.items.length := h.toTracks.covered_eq
      have hcount : s.memory.recordCount = l.items.length := h.toTracks.recordCount_eq
      have hroom : s.memory.recordCount < 0x7FFFFFFF := hfits.1
      omega
    all_goals first | exact heffect.later | exact heffect.elim fun _ hp => hp.later
  next => exact heffect.later

/-! ## Runs -/

/-- Steps are taken one after another. -/
theorem after_append (steps more : List QueueStep) (s : Session Queue) :
    after (steps ++ more) s = after more (after steps s) := by
  induction steps generalizing s with
  | nil => rfl
  | cons step rest ih => exact ih _

/-- They fit if each fits where it is taken. -/
theorem allFit_append {steps more : List QueueStep} {s : Session Queue} :
    AllFit (steps ++ more) s ↔ AllFit steps s ∧ AllFit more (after steps s) := by
  induction steps generalizing s with
  | nil => simp [AllFit, after]
  | cons step rest ih => rw [List.cons_append, AllFit, ih, AllFit, after, and_assoc]

/-- Operations that follow one another leave a queue at rest, and its records have gone on. -/
theorem after_rests (h : Rests l layout s) (steps : List QueueStep) (hfit : AllFit steps s) :
    Queue.Later s (after steps s) ∧ ∃ l' layout', Rests l' layout' (after steps s) := by
  induction steps generalizing l layout s with
  | nil => exact ⟨.refl s, l, layout, h⟩
  | cons step rest ih =>
    obtain ⟨hfits, hrest⟩ := hfit
    obtain ⟨_, _, heffect, hnext⟩ := next_rests h step hfits
    obtain ⟨hlater, hrests⟩ := ih hnext hrest
    exact ⟨(heffect.later h hfits).trans hlater, hrests⟩

end QueueStep

open QueueStep (AllFit after) in
/-- A queue is loaded where nothing is, and is called, closed and opened anew in any order, while
there is room. Each operation does to the files what its answer tells, and replaces no other byte;
up to the end the count does not sink, and the records go on that it covered, the tombstones as they
are. -/
theorem records_go_on (host : Host) (settings : Settings) (steps : List QueueStep)
    (hvalid : settings.validate = .ok ())
    (hfresh : host.disk.Fresh (Path.ofString settings.directory)) :
    ∃ queue opened, (Queue.load settings).outcome (⟨host, ()⟩ : Session Unit) = (.ok queue, opened)
      ∧ (AllFit steps ⟨opened.host, queue⟩ → ∀ before step rest, steps = before ++ step :: rest →
        let s := after before ⟨opened.host, queue⟩
        let last := after steps ⟨opened.host, queue⟩
        step.Effect s (step.next s) (step.answer s) ∧ Queue.Later s last
          ∧ ∀ p < (Queue.recordBytes s).covered,
            ((Queue.recordBytes s).recordAt p).status = Status.deleted.tag →
              (Queue.recordBytes last).recordAt p = (Queue.recordBytes s).recordAt p) := by
  obtain ⟨queue, opened, hload, -, -, htracks, hidle⟩ :=
    (Queue.load_of_fresh (s := ⟨host, ()⟩) hvalid hfresh fun _ => 0).outcome
  refine ⟨queue, opened, hload, fun hfit before step rest hsteps => ?_⟩
  subst hsteps
  obtain ⟨hbefore, hstep⟩ := QueueStep.allFit_append.mp hfit
  obtain ⟨-, l, layout, hrests⟩ :=
    QueueStep.after_rests (AtRest.rests ⟨htracks, hidle⟩) before hbefore
  obtain ⟨_, _, heffect, -⟩ := step.next_rests hrests hstep.1
  have hlater := (QueueStep.after_rests hrests (step :: rest) hstep).1
  simp only [QueueStep.after_append]
  exact ⟨heffect, hlater, fun p hp hdeleted => (hlater.record p hp).of_tombstone hdeleted⟩

/-- A queue that is loaded where nothing is rests. -/
theorem Queue.atRest_of_load_fresh {host : Host} {settings : Settings} {queue : Queue}
    {opened : Session Unit} (hvalid : settings.validate = .ok ())
    (hfresh : host.disk.Fresh (Path.ofString settings.directory))
    (hload : (load settings).outcome (⟨host, ()⟩ : Session Unit) = (.ok queue, opened)) :
    AtRest {} (fun _ => 0) ⟨opened.host, queue⟩ := by
  obtain ⟨_, _, hloaded, -, -, htracks, hidle⟩ :=
    (load_of_fresh (s := ⟨host, ()⟩) hvalid hfresh fun _ => 0).outcome
  cases hload.symm.trans hloaded
  exact ⟨htracks, hidle⟩

/-- A queue that is loaded where nothing is has no record and no payload. -/
theorem Queue.empty_of_load_fresh {host : Host} {settings : Settings} {queue : Queue}
    {opened : Session Unit} (hvalid : settings.validate = .ok ())
    (hfresh : host.disk.Fresh (Path.ofString settings.directory))
    (hload : (load settings).outcome (⟨host, ()⟩ : Session Unit) = (.ok queue, opened)) :
    queue.recordCount = 0 ∧ queue.payloads.cursor = 0 :=
  have hrest := atRest_of_load_fresh hvalid hfresh hload
  ⟨hrest.recordCount_eq, hrest.cursor⟩

/-- A message is put in, taken and finished. Its record has gone on from the first push, also when
the queue was closed and opened anew. -/
theorem records_go_on_finished :
    ∃ queue opened, (Queue.load { directory := "queue", pageSize := 40 }).outcome
        (⟨⟨{}, ⟨fun _ => 0, 0⟩, []⟩, ()⟩ : Session Unit) = (.ok queue, opened)
      ∧ Queue.Later (QueueStep.after [.act (.call (.push ⟨⟨1⟩, .text, [7]⟩))] ⟨opened.host, queue⟩)
          (QueueStep.after [.act (.call (.push ⟨⟨1⟩, .text, [7]⟩)), .act (.call .pop),
            .act (.call (.finish ⟨1⟩)), .close, .records,
            .act (.reopen false ⟨5, .everyWrite, nofun, nofun, nofun⟩), .records]
              ⟨opened.host, queue⟩) := by
  obtain ⟨queue, opened, hload, hrun⟩ := records_go_on ⟨{}, ⟨fun _ => 0, 0⟩, []⟩
    { directory := "queue", pageSize := 40 }
    [.act (.call (.push ⟨⟨1⟩, .text, [7]⟩)), .act (.call .pop),
      .act (.call (.finish ⟨1⟩)), .close, .records,
      .act (.reopen false ⟨5, .everyWrite, nofun, nofun, nofun⟩), .records] rfl (Disk.fresh_new _)
  obtain ⟨hcount, hcursor⟩ := Queue.empty_of_load_fresh rfl (Disk.fresh_new _) hload
  refine ⟨queue, opened, hload, (hrun ?_ [_] (.act (.call .pop)) _ rfl).2.1⟩
  simp only [QueueStep.AllFit, QueueStep.Fits, QueueAction.Fits, QueueCall.Fits, hcount, hcursor,
    and_true]
  decide

end PagedQueue
