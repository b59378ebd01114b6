import PagedQueue.Proofs.QueueInUse
import PagedQueue.Proofs.StatusCalls

/-!
# Moves that fail

A message is taken, finished or given back in memory first, then in its record, and then its payload
is read. If a page of the records is refused, the message has moved in memory only; if a page of the
payloads is, it has moved on disk as well, and the answer alone is missing. Nothing is taken back
(`failed_moves_stand`), so a move that fails must not be taken for one that was not made
(`failed_moves_show`).
-/

namespace PagedQueue

open Procedure
open PageStore (Uses Refused Stamps HasMapped Same)
open MessageIndex (pagesOf)

namespace PageStore

variable {s t u : Session PageStore} {index start : Nat} {file : FileId} {bytes : List UInt8}

theorem HasMapped.flush {s : PageStore} (h : s.HasMapped index file) :
    s.flush.HasMapped index file := by
  unfold PageStore.flush
  generalize s.cachedPages = ids
  induction ids generalizing s with
  | nil => exact h
  | cons first rest ih => exact ih (h.updatePage first Page.origin_flush)

/-- Bytes that were written stay as long as nothing is lost. -/
theorem Stamps.kept (h : Stamps file index start bytes s t) (hsame : Same t.memory u.memory)
    (hfits : u.memory.Fitted) (hdisk : t.host.disk.Retains Disk.Nothing u.host.disk)
    (hmapped : u.memory.HasMapped index file) : Stamps file index start bytes s u where
  hasMapped := hmapped
  uses := ⟨h.uses.same.trans hsame, hfits, h.uses.retains.trans hdisk.of_nothing⟩
  byteOf_eq i hi hlt := (hdisk.byteOf_eq file _ fun hand => hand).trans (h.byteOf_eq i hi hlt)

end PageStore

/-! ## Moves in the index -/

namespace MessageIndex

variable {m : MessageIndex} {s t : Session MessageIndex} {id : EntryId}

/-- The status on disk of an entry was written over: four bytes of the file that was mapped under
the name of their page, as far as that file reached. -/
def Marks (id : EntryId) (status : Status) (s t : Session MessageIndex) : Prop :=
  let place := Record.place (s.memory.entry id).position + Record.statusOffset
  let pageSize := s.memory.file.store.pageSize
  ∃ file, Stamps file (place / pageSize) (place % pageSize) (encodeInt32 status.tag)
    (pagesOf s) (pagesOf t)

/-- An index in which only the file has changed, by an access that was refused a page. -/
structure Stopped (m : MessageIndex) (s : Session MessageIndex) (fault : Fault)
    (t : Session MessageIndex) : Prop where
  memory : t.memory = { m with file := t.memory.file }
  uses : Uses Disk.Nothing (pagesOf s) (pagesOf t)
  refused : Refused (pagesOf s) fault

/-- An index in which only the file has changed, by a status written to a record. -/
structure Marked (m : MessageIndex) (id : EntryId) (status : Status) (s t : Session MessageIndex) :
    Prop where
  memory : t.memory = { m with file := t.memory.file }
  marks : Marks id status s t

variable (hfits : s.memory.file.store.Fitted) (hpage : 8 ∣ s.memory.file.store.pageSize)

section

include hfits hpage

/-- The status of an entry is moved, and its record is written or refused. -/
theorem persistStatus_marks (hid : (s.memory.entry id).status ≠ .vacant) (status : Status) :
    (persistStatus id).Leads ⟨s.host, s.memory.withStatus id status⟩
      (fun _ t => Marked (s.memory.withStatus id status) id status s t)
      fun fault t => Stopped (s.memory.withStatus id status) s fault t := by
  have hentry : (s.memory.withStatus id status).entry id = { s.memory.entry id with status } :=
    (entry_setStatus s.memory hid id).trans (if_pos rfl)
  have hbytes : encodeInt32 status.tag ≠ [] := List.ne_nil_of_length_pos (by simp)
  have hone := ByteSpace.status_inOnePage hpage s.memory.file.store.pageSize_pos
    (s.memory.entry id).position
  rw [← length_encodeInt32 status.tag] at hone
  unfold persistStatus onFile PagedFile.writeInt32
  simp only [leads_bind, leads_memory, leads_within, hentry]
  refine (PagedFile.writeWord_uses (s := s.part file) hfits hbytes hone).mono ?_ ?_
  · intro _ t ht
    exact ⟨rfl, ht⟩
  · intro fault t ht
    exact ⟨rfl, ht.1, ht.2⟩

end

end MessageIndex

namespace StatusCall

variable {s : Session MessageIndex}

/-- The call moves its message in the index, or a page of the records is refused when the message
has moved in memory. -/
theorem onIndex_leads (c : StatusCall) (hfits : s.memory.file.store.Fitted)
    (hpage : 8 ∣ s.memory.file.store.pageSize) (hindexed : s.memory.Indexed) :
    c.onIndex.Leads s
      (fun found t => ∀ id, found = some id → c.selected? s.memory = some id
        ∧ MessageIndex.Marked (c.done s.memory id) id c.kind.target s t)
      fun fault t => ∃ id, c.selected? s.memory = some id
        ∧ MessageIndex.Stopped (c.moved s.memory id) s fault t := by
  have hselects := c.onIndex_selects hindexed
    (fun id host file => MessageIndex.Marks id c.kind.target s ⟨host, { s.memory with file }⟩)
    (fun id => MessageIndex.Stopped (c.moved s.memory id) s) fun id hselected => by
      have hid : (s.memory.entry id).status ≠ .vacant := by
        rw [status_of_selected hselected]
        exact c.kind.source_ne_vacant
      exact (MessageIndex.persistStatus_marks hfits hpage hid c.kind.target).mono
        (fun _ _ ht => ⟨ht.memory, ht.marks⟩) fun _ _ ht => ht
  refine hselects.mono ?_ fun _ _ => id
  intro found t ht id hid
  rcases ht with ⟨hnone, -, -⟩ | ⟨other, hsome, hselected, hmemory, hmarks⟩
  · rw [hnone] at hid
    cases hid
  · rw [hsome] at hid
    cases hid
    exact ⟨hselected, hmemory, hmarks⟩

end StatusCall

namespace Queue

variable {s t : Session Queue} {α : Type}

/-- What stays when written bytes are forced out: the disk, and the index up to what its pages know
of that. -/
structure Forced (s t : Session Queue) : Prop where
  host : t.host = s.host
  index : t.memory.index = { s.memory.index with file := t.memory.index.file }
  hasMapped : ∀ {index file}, (pagesOf (indexOf s)).memory.HasMapped index file →
    (pagesOf (indexOf t)).memory.HasMapped index file

theorem flushFiles_forced (s : Session Queue) : flushFiles.Ensures s fun _ t => Forced s t :=
  ⟨rfl, rfl, HasMapped.flush⟩

theorem afterChange_forced (s : Session Queue) : afterChange.Ensures s fun _ t => Forced s t := by
  have hcounted (changes : Nat) : Forced s ⟨s.host, { s.memory with changes }⟩ := ⟨rfl, rfl, id⟩
  unfold afterChange Ensures
  simp only [leads_bind, leads_memory]
  split
  · exact flushFiles_forced s
  · simp only [leads_bind, leads_update, leads_memory, leads_ite, leads_pure]
    split
    · exact (flushFiles_forced _).mono fun _ t ht => ⟨ht.host, ht.index, ht.hasMapped⟩
    · exact hcounted _
  · exact hcounted _
  · exact hcounted _

/-- The message of an entry is read, or a page of its payload is refused; nothing is lost. -/
theorem readMessage_stays (h : s.memory.payloads.file.store.Fitted) (id : EntryId) :
    (readMessage id).Leads s (fun _ _ => True) fun fault t => t.memory.index = s.memory.index
      ∧ s.host.disk.Retains Disk.Nothing t.host.disk ∧ Refused (payloadPagesOf s) fault := by
  unfold readMessage onPayloads PayloadLog.read PayloadLog.onFile
  simp only [leads_bind, leads_memory, leads_within, leads_pure]
  exact (PagedFile.readBytes_uses (s := (s.part payloads).part PayloadLog.file) h _ _).mono
    (fun _ _ _ => trivial) fun fault t ht => ⟨trivial, ht.1.retains, ht.2⟩

/-- A move of the index is made, or a page of the records or of the payloads is refused. -/
theorem change_stays (h : s.memory.Sane) (hopen : s.memory.isClosed = false) (c : StatusCall) :
    (change c.onIndex).Leads s (fun _ _ => True) fun fault t =>
      ∃ id, c.selected? s.memory.index = some id
        ∧ (MessageIndex.Stopped (c.moved s.memory.index id) (indexOf s) fault (indexOf t)
          ∨ MessageIndex.Marked (c.done s.memory.index id) id c.kind.target (indexOf s) (indexOf t)
            ∧ Refused (payloadPagesOf s) fault) := by
  have hpage : 8 ∣ s.memory.index.file.store.pageSize :=
    h.recordSize ▸ ((Settings.validate_eq_ok_iff _).mp h.valid).2.1
  have hkeeps : Keeps (MessageIndex.Keyed (PagedFile.Lies s.memory.index.file.store))
      c.onIndex := by
    have hmove (uuid : Uuid) (expected status : Status) :=
      MessageIndex.keeps_transition (PagedFile.lasting_lies s.memory.index.file.store)
        uuid expected status
    rcases c with ⟨_ | _ | _, uuid⟩ | _
    · exact hmove uuid _ _
    · exact hmove uuid _ _
    · exact MessageIndex.keeps_finish (PagedFile.lasting_lies _) uuid
    · exact MessageIndex.keeps_pop (PagedFile.lasting_lies _)
  have hleads := (c.onIndex_leads (s := indexOf s) h.recordsFit hpage h.indexed).and
    (hkeeps (indexOf s) h.from_self.index)
  unfold change onIndex
  simp only [leads_bind]
  rw [leads_ensureOpen hopen, leads_within]
  refine hleads.mono (fun found u hu => ?_) fun fault u hu => ?_
  · obtain ⟨hmoved, hkept⟩ := hu
    cases found with
    | none => exact trivial
    | some id =>
      obtain ⟨hselected, hmemory, file, hstamps⟩ := hmoved id rfl
      have hfrom : From s.memory { s.memory with index := u.memory } :=
        ⟨rfl, h.from_self.payloads, hkept⟩
      have hsane := hfrom.sane h
      simp only [leads_bind, leads_pure]
      refine (Leads.and (afterChange_forced _) (keeps_afterChange ⟨u.host, _⟩ hsane.from_self)).mono
        ?_ fun _ _ hand => False.elim hand.1
      intro _ v hv
      obtain ⟨⟨hhost, hindex, hmapped⟩, hfrom'⟩ := hv
      refine (readMessage_stays hfrom'.payloads.2 id).mono (fun _ _ _ => trivial) ?_
      intro fault w hw
      obtain ⟨hsame, hretains, page, hrefused⟩ := hw
      refine ⟨id, hselected, .inr ⟨⟨?_, file, ?_⟩, page, ?_⟩⟩
      · show w.memory.index = { c.done s.memory.index id with file := w.memory.index.file }
        rw [hsame, hindex]
        show ({ u.memory with file := v.memory.index.file } : MessageIndex) = _
        rw [hmemory]
        rfl
      · refine hstamps.kept ?_ ?_ ?_ ?_
        · show Same u.memory.file.store w.memory.index.file.store
          rw [hsame]
          exact hfrom'.index.1.1
        · show w.memory.index.file.store.Fitted
          rw [hsame]
          exact hfrom'.index.1.2
        · show u.host.disk.Retains Disk.Nothing w.host.disk
          rw [← congrArg Host.disk hhost]
          exact hretains
        · show w.memory.index.file.store.HasMapped _ file
          rw [hsame]
          exact hmapped hstamps.hasMapped
      · rw [hrefused]
        show Fault.pageMap (Disk.pagePath v.memory.payloads.file.store.directory page) = _
        rw [hfrom'.payloads.1.directory]
        rfl
  · obtain ⟨id, hselected, hstopped⟩ := hu.1
    exact ⟨id, hselected, .inl hstopped⟩

end Queue

open Queue in
/-- What a move that fails leaves behind. If the queue is closed, nothing has happened. Otherwise a
page was refused, and a message had been selected, which has moved in memory. Either a page of the
records was refused: then the disk has lost nothing, no other message has moved, and if the message
was not to leave the queue, the index is as before but for its status. Or a page of the payloads was
refused: then the move is made, in memory and in the record, and of the files on disk only the
status in the record is another. -/
theorem failed_moves_stand {s t : Session Queue} (h : InUse s) (c : StatusCall) {fault : Fault}
    (hfail : c.run.outcome s = (.error fault, t)) :
    s.memory.isClosed = true ∧ fault = .closed ∧ t = s
    ∨ s.memory.isClosed = false ∧ ∃ id, c.selected? s.memory.index = some id
      ∧ ((∃ page, fault = .pageMap (Disk.pagePath (recordDirectory s.memory.settings) page))
          ∧ t.memory.index = { c.moved s.memory.index id with
            file := t.memory.index.file
            live := t.memory.index.live
            ordered := t.memory.index.ordered }
          ∧ (c.kind ≠ .finish →
            t.memory.index = { c.moved s.memory.index id with file := t.memory.index.file }
            ∧ t.memory.size = s.memory.size)
          ∧ s.host.disk.Retains Disk.Nothing t.host.disk
        ∨ (∃ page, fault = .pageMap (Disk.pagePath (payloadDirectory s.memory.settings) page))
          ∧ t.memory.index = { c.done s.memory.index id with file := t.memory.index.file }
          ∧ t.memory.size + c.leaving = s.memory.size
          ∧ MessageIndex.Marks id c.kind.target (indexOf s) (indexOf t)) := by
  have hsane := h.sane
  rw [c.run_eq] at hfail
  cases hclosed : s.memory.isClosed with
  | true =>
    have hrefuses : (change c.onIndex).Leads s (fun _ _ => False)
        fun fault t => fault = .closed ∧ t = s := by
      simp only [change, ensureOpen, leads_bind, leads_memory, hclosed, if_true, leads_throw,
        and_self]
    exact .inl ⟨rfl, hrefuses.of_error hfail⟩
  | false =>
    obtain ⟨id, hselected, hstopped | ⟨hmarked, page, hrefused⟩⟩ :=
      (change_stays hsane hclosed c).of_error hfail
    · obtain ⟨page, hrefused⟩ := hstopped.refused
      have hindex :
          t.memory.index = { c.moved s.memory.index id with file := t.memory.index.file } :=
        hstopped.memory
      refine .inr ⟨rfl, id, hselected,
        .inl ⟨⟨page, ?_⟩, ?_, fun _ => ⟨hindex, ?_⟩, hstopped.uses.retains⟩⟩
      · rw [hrefused, ← hsane.recordDirectory]
        rfl
      · rw [hindex]
      · rw [size, hindex]
        rfl
    · have hindex :
          t.memory.index = { c.done s.memory.index id with file := t.memory.index.file } :=
        hmarked.memory
      refine .inr ⟨rfl, id, hselected, .inr ⟨⟨page, ?_⟩, hindex, ?_, hmarked.marks⟩⟩
      · rw [hrefused, ← hsane.payloadDirectory]
        rfl
      · rw [size, hindex]
        exact StatusCall.size_done hselected hsane.indexed

/-! ## A payload that cannot be read -/

namespace Queue

/-- A directory in the place of the first page of the payloads. -/
def payloadTaken (host : Host) : Host :=
  let path := ["queue", "data", "page-0.dat"]
  { host with disk := (Change.makeDirectory path).apply 0 ((Change.unlink path).apply 0 host.disk) }

/-- A message is put into the queue, the queue is opened anew, and the payload cannot be read any
more. -/
def unreadable (s : Session Queue) : Session Queue :=
  let pushed := ((QueueAction.call (.push ⟨⟨1⟩, .text, [7]⟩)).run.outcome s).2
  let opened := ((QueueAction.reopen true ⟨1, .manual, nofun, nofun, nofun⟩).run.outcome pushed).2
  ⟨payloadTaken opened.host, opened.memory⟩

theorem InUse.unreadable {s : Session Queue} (h : InUse s) : InUse (unreadable s) :=
  .disturbed (.acted (.acted h _) _) _

/-- A queue that is loaded where nothing is. -/
def started? : Option (Session Queue) :=
  loaded? { directory := "queue", pageSize := 64, lifetime := 1, durability := .manual }
    ⟨{}, ⟨fun _ => 0, 0⟩, []⟩

/-- The status in the first record on disk. -/
def storedStatus (s : Session Queue) : Int32 :=
  ((s.host.disk.space (recordDirectory s.memory.settings) s.memory.settings.pageSize).recordAt
    0).status

/-- The fault of a call that fails. -/
def faultOf? (c : StatusCall) (s : Session Queue) : Option Fault :=
  match (c.run.outcome s).1 with
  | .error fault => some fault
  | .ok _ => none

theorem outcome_of_faultOf? {c : StatusCall} {s : Session Queue} {fault : Fault}
    (h : faultOf? c s = some fault) : c.run.outcome s = (.error fault, (c.run.outcome s).2) := by
  unfold faultOf? at h
  split at h
  next heq =>
    cases h
    exact Prod.ext heq rfl
  next => cases h

/-- The fault of a call that was refused the first page of the payloads. -/
def payloadRefused : Fault := .pageMap (Disk.pagePath ["queue", "data"] 0)

/-- Two calls fail, and both show: one in the status of the message, in memory and on disk, and the
other one in the number of messages. -/
def Shows (s : Session Queue) : Prop :=
  let lock : StatusCall := .move .lock ⟨1⟩
  let finish : StatusCall := .move .finish ⟨1⟩
  let locked := (lock.run.outcome s).2
  let finished := (finish.run.outcome locked).2
  (faultOf? lock s = some payloadRefused
      ∧ s.memory.status? ⟨1⟩ = some .new ∧ locked.memory.status? ⟨1⟩ = some .locked
      ∧ storedStatus s = Status.new.tag ∧ storedStatus locked = Status.locked.tag)
    ∧ faultOf? finish locked = some payloadRefused
      ∧ locked.memory.size = 1 ∧ finished.memory.size = 0
      ∧ finished.memory.status? ⟨1⟩ = none ∧ storedStatus finished = Status.deleted.tag

instance (s : Session Queue) : Decidable (Shows s) := by
  unfold Shows
  infer_instance

theorem exists_unreadable : ∃ s, started? = some s ∧ Shows (unreadable s)
    ∧ recordDirectory (unreadable s).memory.settings = ["queue", "meta"] := by
  have hshows : started?.any (fun s => decide (Shows (unreadable s)
      ∧ recordDirectory (unreadable s).memory.settings = ["queue", "meta"])) = true := by
        decide +kernel
  obtain ⟨s, hs, hdecide⟩ := (Option.any_eq_true _ _).mp hshows
  exact ⟨s, hs, of_decide_eq_true hdecide⟩

end Queue

/-- A call that fails because a payload cannot be read has moved its message: it is locked then, in
memory and on disk, or it has left the queue. -/
theorem failed_moves_show : ∃ s, Queue.started? = some s
    ∧ Queue.InUse (Queue.unreadable s) ∧ Queue.Shows (Queue.unreadable s) := by
  obtain ⟨s, hs, hshows, -⟩ := Queue.exists_unreadable
  exact ⟨s, hs, (Queue.InUse.of_loaded? hs).unreadable, hshows⟩

open Queue in
/-- The message whose payload cannot be read is locked all the same. -/
theorem failed_moves_stand_unreadable : ∃ s t, InUse s
    ∧ (StatusCall.run (.move .lock ⟨1⟩)).outcome s = (.error payloadRefused, t)
    ∧ ∃ id, t.memory.index
      = { s.memory.index.withStatus id .locked with file := t.memory.index.file }
      ∧ t.memory.size = s.memory.size ∧ MessageIndex.Marks id .locked (indexOf s) (indexOf t) := by
  obtain ⟨s, hs, ⟨⟨hfault, hnew, hlocked, -, -⟩, -⟩, hdirectory⟩ := exists_unreadable
  have hinUse := (InUse.of_loaded? hs).unreadable
  have hfail := outcome_of_faultOf? hfault
  refine ⟨unreadable s, _, hinUse, hfail, ?_⟩
  obtain ⟨-, -, hsame⟩ | ⟨-, id, -, ⟨⟨page, hfault'⟩, -⟩ | ⟨-, hindex, hsize, hmarks⟩⟩ :=
    failed_moves_stand hinUse (.move .lock ⟨1⟩) hfail
  · rw [hsame, hnew] at hlocked
    cases hlocked
  · rw [hdirectory, payloadRefused, Fault.pageMap.injEq] at hfault'
    exact absurd (List.append_inj_left' hfault' rfl) (by decide)
  · exact ⟨id, hindex, hsize, hmarks⟩

end PagedQueue
