import PagedQueue.Proofs.IndexSteps
import PagedQueue.Proofs.QueueInUse
import PagedQueue.Proofs.RecordHistory

/-!
# Queues between two operations

A UUID is noted while a message is pushed under it. Whatever becomes of the push, it is not noted
any more afterwards (`Queue.keeps_push`), and no other operation notes one (`Queue.Notes`). So
between two operations no push is under way (`Queue.Reached.idle`), however the queue came up and
whatever was on disk then.
-/

namespace PagedQueue

open Procedure

variable {α : Type}

/-! ## What is done with an index -/

namespace MessageIndex

/-- The UUIDs that are noted have a property. -/
def Notes (noted : Std.TreeSet Uuid → Prop) (m : MessageIndex) : Prop := noted m.pending

namespace Notes

variable {noted : Std.TreeSet Uuid → Prop}

/-- Whatever is done with the file of the records, nothing is noted in the index. -/
theorem keeps_onFile (p : Procedure PagedFile α) : Keeps (Notes noted) (onFile p) :=
  keeps_onFile_of p fun _ _ h => h

theorem keeps_addEntry (entry : Entry) : Keeps (Notes noted) (addEntry entry) :=
  keeps_memory.bind fun _ => .bind (keeps_update fun _ h => h) fun _ => keeps_pure _

/-- A message that is published takes no reservation away. -/
theorem keeps_publish (uuid : Uuid) (offset : UInt64) (length : UInt32) (kind : Kind) :
    Keeps (Notes noted) (publish uuid offset length kind) := by
  have htake : Keeps (Notes noted) takePosition :=
    keeps_memory.bind fun _ => .bind (keeps_update fun _ h => h) fun _ => keeps_pure _
  refine htake.bind fun position => (keeps_addEntry _).bind fun id => (keeps_onFile _).bind
    fun _ => ?_
  refine (keeps_raiseCount (keeps_onFile _) fun _ h => h).bind fun _ => ?_
  exact .bind (keeps_update fun _ h => h) fun _ => .bind (keeps_update fun _ h => h) fun _ =>
    keeps_pure _

theorem keeps_compareAndSet (id : EntryId) (expected status : Status) :
    Keeps (Notes noted) (compareAndSet id expected status) :=
  keeps_memory.bind fun _ => .ite (.bind (keeps_update fun _ h => h) fun _ => keeps_pure _)
    (keeps_pure _)

theorem keeps_persistStatus (id : EntryId) : Keeps (Notes noted) (persistStatus id) :=
  keeps_memory.bind fun _ => keeps_onFile _

/-- A status is moved, and reservations stay. -/
theorem keeps_transition (uuid : Uuid) (expected status : Status) :
    Keeps (Notes noted) (transition uuid expected status) := by
  unfold transition
  refine keeps_memory.bind fun m => ?_
  split
  · exact keeps_pure _
  · exact (keeps_compareAndSet _ _ _).bind fun _ =>
      .ite ((keeps_persistStatus _).bind fun _ => keeps_pure _) (keeps_pure _)

theorem keeps_finish (uuid : Uuid) : Keeps (Notes noted) (finish uuid) := by
  unfold finish
  refine (keeps_transition _ _ _).bind fun moved => ?_
  cases moved with
  | none => exact keeps_pure _
  | some id =>
    have hlive : Keeps (Notes noted) (leaveLive id) :=
      keeps_memory.bind fun _ => keeps_memory.bind fun _ => .ite (keeps_update fun _ h => h)
      (keeps_pure _)
    have hordered : Keeps (Notes noted) (leaveOrdered id) :=
      keeps_memory.bind fun _ => keeps_update fun _ h => h
    exact hlive.bind fun _ => hordered.bind fun _ => keeps_pure _

theorem keeps_pop : Keeps (Notes noted) pop := by
  have hfirst (ids : List EntryId) : Keeps (Notes noted) (takeFirst ids) := by
    induction ids with
    | nil => exact keeps_pure _
    | cons id rest ih =>
      exact (keeps_compareAndSet _ _ _).bind fun _ =>
        .ite ((keeps_persistStatus _).bind fun _ => keeps_pure _) ih
  exact keeps_memory.bind fun _ => hfirst _

theorem keeps_readRecord (position : Nat) : Keeps (Notes noted) (readRecord position) :=
  (keeps_onFile _).bind fun _ => keeps_ofExcept _

theorem keeps_records : Keeps (Notes noted) records :=
  keeps_memory.bind fun _ => .mapM keeps_readRecord _

/-- A recovery reserves nothing. -/
theorem keeps_recover : Keeps (Notes noted) recover := by
  have hrecord (found : Tally × Std.TreeMap Nat EntryId) (position : Nat) :
      Keeps (Notes noted) (recoverRecord found position) := by
    refine (keeps_readRecord position).bind fun record => (keeps_ofExcept _).bind fun slot => ?_
    cases slot with
    | vacant => exact keeps_pure _
    | tombstone => exact keeps_pure _
    | live entry =>
      refine keeps_memory.bind fun m => .ite (keeps_pure _) ?_
      exact (keeps_addEntry entry).bind fun id => .bind (keeps_update fun _ h => h) fun _ =>
        keeps_pure _
  refine .bind (keeps_update fun _ h => h) fun _ => (keeps_onFile _).discard.bind fun _ => ?_
  refine (keeps_readCount (keeps_onFile _)).bind fun count => (Keeps.foldlM hrecord _ _).bind
    fun found => ?_
  exact .bind (keeps_update fun _ h => h) fun _ => keeps_pure _

theorem keeps_startEmpty : Keeps (Notes noted) startEmpty := by
  refine .bind (keeps_update fun _ h => h) fun _ => (keeps_onFile _).bind fun _ => ?_
  exact (keeps_onFile _).bind fun _ => keeps_update fun _ h => h

end Notes

end MessageIndex

/-! ## What is done with a queue -/

namespace Queue

/-- The UUIDs that are noted have a property. -/
def Notes (noted : Std.TreeSet Uuid → Prop) (q : Queue) : Prop := noted q.index.pending

/-- No push is under way. -/
def Idle : Queue → Prop := Notes fun pending => ∀ uuid, pending.contains uuid = false

namespace Notes

variable {noted : Std.TreeSet Uuid → Prop}

/-- What an index notes is what its queue notes. -/
theorem keeps_onIndex {p : Procedure MessageIndex α} (h : Keeps (MessageIndex.Notes noted) p) :
    Keeps (Notes noted) (onIndex p) := .within fun _ hq => ⟨_, h, hq, fun _ hm => hm⟩

/-- Nothing is noted when records are read or written. -/
theorem keeps_onRecords (p : Procedure PagedFile α) :
    Keeps (Notes noted) (onIndex (MessageIndex.onFile p)) :=
  keeps_onIndex (MessageIndex.Notes.keeps_onFile p)

/-- Payloads have nothing to do with reservations. -/
theorem keeps_onPayloads (p : Procedure PayloadLog α) : Keeps (Notes noted) (onPayloads p) :=
  .within fun _ hq => ⟨_, keeps_true p, trivial, fun _ _ => hq⟩

theorem keeps_ensureOpen : Keeps (Notes noted) ensureOpen :=
  keeps_memory.bind fun _ => .ite (keeps_throw _) (keeps_pure _)

theorem keeps_flushFiles : Keeps (Notes noted) flushFiles :=
  (keeps_onPayloads _).bind fun _ => keeps_onRecords _

/-- Bytes are forced out after a change, and nothing else happens. -/
theorem keeps_afterChange : Keeps (Notes noted) afterChange := by
  refine keeps_memory.bind fun q => ?_
  split
  · exact keeps_flushFiles
  · refine .bind (keeps_update fun _ h => h) fun _ => keeps_memory.bind fun _ =>
      .ite ?_ (keeps_pure _)
    exact .bind (keeps_update fun _ h => h) fun _ => keeps_flushFiles
  · exact keeps_pure _
  · exact keeps_pure _

theorem keeps_readMessage (id : EntryId) : Keeps (Notes noted) (readMessage id) :=
  keeps_memory.bind fun _ => (keeps_onPayloads _).bind fun _ => keeps_pure _

theorem keeps_readMessage? (id? : Option EntryId) : Keeps (Notes noted) (readMessage? id?) := by
  cases id? with
  | none => exact keeps_pure _
  | some id => exact (keeps_readMessage id).bind fun _ => keeps_pure _

/-- A call that moves a message moves it in the index and reads it. -/
theorem keeps_change {move : Procedure MessageIndex (Option EntryId)}
    (h : Keeps (MessageIndex.Notes noted) move) : Keeps (Notes noted) (change move) := by
  refine keeps_ensureOpen.bind fun _ => (keeps_onIndex h).bind fun moved => ?_
  cases moved with
  | none => exact keeps_pure _
  | some id =>
    exact keeps_afterChange.bind fun _ => (keeps_readMessage id).bind fun _ => keeps_pure _

theorem keeps_store (m : Message) : Keeps (Notes noted) (store m) :=
  (keeps_onPayloads _).bind fun _ =>
  (keeps_onIndex (MessageIndex.Notes.keeps_publish _ _ _ _)).discard

theorem keeps_recover : Keeps (Notes noted) recover :=
  keeps_ensureOpen.bind fun _ => (keeps_onIndex MessageIndex.Notes.keeps_recover).bind fun _ =>
    (keeps_onPayloads _).discard.bind fun _ => keeps_pure _

theorem keeps_startEmpty : Keeps (Notes noted) startEmpty :=
  keeps_ensureOpen.bind fun _ => (keeps_onIndex MessageIndex.Notes.keeps_startEmpty).bind fun _ =>
    (keeps_onPayloads _).bind fun _ => keeps_update fun _ h => h

theorem keeps_recoverOrStart : Keeps (Notes noted) recoverOrStart :=
  (keeps_onRecords _).bind fun _ => .ite keeps_startEmpty keeps_recover.discard

theorem keeps_records : Keeps (Notes noted) records :=
  keeps_ensureOpen.bind fun _ => keeps_onIndex MessageIndex.Notes.keeps_records

theorem keeps_footprint : Keeps (Notes noted) footprint :=
  (keeps_onRecords _).bind fun _ => (keeps_onPayloads _).bind fun _ =>
  (keeps_onRecords _).bind fun _ =>
    (keeps_onPayloads _).bind fun _ => keeps_memory.bind fun _ => keeps_pure _

theorem keeps_close : Keeps (Notes noted) close := by
  refine keeps_memory.bind fun _ => .ite (keeps_pure _) ?_
  exact .bind (keeps_update fun _ h => h) fun _ => (keeps_onPayloads _).bind fun _ =>
    keeps_onRecords _

end Notes

namespace Idle

/-- The UUID of a push is noted only while the push is under way, whatever comes of it. -/
theorem keeps_push (m : Message) : Keeps Idle (push m) := by
  refine Notes.keeps_ensureOpen.bind fun _ => .ite (keeps_throw _) (.ite (keeps_throw _) ?_)
  intro s hs
  rw [leads_bind, onIndex, leads_within]
  refine (MessageIndex.reserve_ensures (s := s.part index) (hs m.uuid)).leads.mono
    (fun possible u hu => ?_) fun _ _ => False.elim
  obtain ⟨-, pending, rfl, hpending⟩ := hu
  -- the UUID is the only one that is noted, if it could be reserved
  have hnoted (uuid : Uuid) : pending.contains uuid = (possible && decide (m.uuid = uuid)) :=
    (hpending uuid).trans
    (by rw [show (s.part index).memory.pending.contains uuid = false from hs uuid,
      Bool.or_false])
  cases possible with
  | false => exact hnoted
  | true =>
    have hwithdraw {t : Session Queue}
        (ht : Notes
        (fun pending => ∀ uuid, pending.contains uuid = decide (m.uuid = uuid)) t.memory) :
        (onIndex (MessageIndex.withdraw m.uuid)).Leads t (fun _ v => Idle v.memory)
          fun _ v => Idle v.memory := by
      intro uuid
      refine (MessageIndex.contains_erase_pending ..).trans ?_
      rw [ht uuid]
      by_cases heq : m.uuid = uuid <;> simp [heq]
    have honly : Notes (fun pending => ∀ uuid, pending.contains uuid = decide (m.uuid = uuid))
        { s.memory with index := { s.memory.index with pending } } := hnoted
    rw [Bool.not_true, if_neg Bool.false_ne_true, leads_bind, leads_tryFinally]
    have hafter : Keeps Idle (afterChange >>= fun _ => pure true) :=
      Notes.keeps_afterChange.bind fun _ => keeps_pure _
    refine (Notes.keeps_store m _ honly).mono (fun _ t ht => ?_) fun _ t ht => ?_
    · exact (hwithdraw ht).mono (fun _ v hv => hafter v hv) fun _ _ => id
    · exact (hwithdraw ht).mono (fun _ _ => id) fun _ _ => id

/-- Between two calls nothing is reserved, whatever comes of the first one. -/
theorem keeps_run (c : QueueCall) : Keeps Idle c.run := by
  cases c with
  | push m => exact (keeps_push m).bind fun _ => keeps_pure _
  | get | peek =>
    exact (Notes.keeps_ensureOpen.bind fun _ => keeps_memory.bind fun _ =>
      Notes.keeps_readMessage? _).bind fun _ =>
      keeps_pure _
  | lock uuid | rollback uuid =>
    exact (Notes.keeps_change (MessageIndex.Notes.keeps_transition _ _ _)).bind fun _ =>
      keeps_pure _
  | pop => exact (Notes.keeps_change MessageIndex.Notes.keeps_pop).bind fun _ => keeps_pure _
  | finish uuid =>
    exact (Notes.keeps_change (MessageIndex.Notes.keeps_finish uuid)).bind fun _ => keeps_pure _
  | status | size | recordCount => exact keeps_memory.bind fun _ => keeps_pure _
  | flush =>
    exact (Notes.keeps_ensureOpen.bind fun _ => Notes.keeps_flushFiles).bind fun _ => keeps_pure _
  | checkpoint =>
    exact ((Notes.keeps_onRecords _).bind fun _ => Notes.keeps_onPayloads _).bind fun _ =>
      keeps_pure _
  | recover => exact Notes.keeps_recover.bind fun _ => keeps_pure _
  | startEmpty => exact Notes.keeps_startEmpty.bind fun _ => keeps_pure _

/-- A queue whose files were just opened has nothing reserved. -/
theorem of_openFiles {σ : Type} (settings : Settings) (s : Session σ) :
    (openFiles settings : Procedure σ Queue).Leads s (fun q _ => q.Idle) fun _ _ => True := by
  unfold openFiles
  simp only [leads_bind, leads_pure]
  refine (keeps_true _ s trivial).mono (fun _ t _ => ?_) fun _ _ => id
  refine (keeps_true _ t trivial).mono (fun _ t _ => ?_) fun _ _ => id
  refine (keeps_true _ t trivial).mono (fun _ t _ => ?_) fun _ _ => id
  refine (keeps_true _ t trivial).mono (fun _ t _ => ?_) fun _ _ => id
  refine (keeps_true _ t trivial).mono (fun _ t _ => ?_) fun _ _ => id
  exact (keeps_true _ t trivial).mono (fun _ _ _ _ => Std.TreeSet.contains_emptyc) fun _ _ => id

/-- Nor has one that was just loaded. -/
theorem of_load {σ : Type} (settings : Settings) (s : Session σ) :
    (load settings : Procedure σ Queue).Leads s (fun q _ => q.Idle) fun _ _ => True := by
  unfold load
  simp only [leads_bind, leads_launch, leads_pure]
  refine (of_openFiles settings s).mono (fun q t hq => ?_) fun _ _ => id
  exact (Notes.keeps_recoverOrStart ⟨t.host, q⟩ hq).mono (fun _ _ => id) fun _ _ _ => trivial

/-- Nor has one that is opened anew. -/
theorem keeps_reopen (closing : Bool) (policy : Policy) : Keeps Idle (reopen closing policy) := by
  have hopen : Keeps Idle (do
      let queue ← load (policy.onSettings (← memory).settings)
      update fun _ => queue) := by
    intro s hs
    rw [leads_bind, leads_memory, leads_bind]
    exact ((load_sane _ s).and (of_load _ s)).mono (fun _ _ ht => ht.2) fun _ _ ht => ht.1 ▸ hs
  cases closing with
  | false => exact hopen
  | true => exact Notes.keeps_close.bind fun _ => hopen

end Idle

/-! ## Queues that came up in any way -/

/-- What leaves a queue over the same files leaves it sane. -/
theorem keeps_sane_of {p : Procedure Queue α} (h : ∀ first, Keeps (From first) p) :
    Keeps Sane p := fun s hs =>
  (h s.memory s hs.from_self).mono (fun _ _ ht => ht.sane hs) fun _ _ ht => ht.sane hs

theorem keeps_records (first : Queue) : Keeps (From first) records := by
  have hrecords : Keeps (MessageIndex.Keyed (PagedFile.Lies first.index.file.store))
      MessageIndex.records :=
    keeps_memory.bind fun _ => .mapM (MessageIndex.keeps_readRecord (PagedFile.lasting_lies _)) _
  rw [from_eq]
  exact FilesKept.keeps_ensureOpen.bind fun _ => FilesKept.keeps_onIndex hrecords

theorem keeps_footprint (first : Queue) : Keeps (From first) footprint := by
  have hsize (store : PageStore) : Keeps (PageStore.Over store) PageStore.totalSize :=
    keeps_disk.bind fun _ => PageStore.keeps_pageEntries.bind fun _ => keeps_pure _
  have hrecords {α : Type} {p : Procedure PageStore α}
      (h : Keeps (PageStore.Over first.index.file.store) p) :
      Keeps (From first) (onRecordPages p) := by
    rw [from_eq]
    exact FilesKept.keeps_onIndex (MessageIndex.keeps_onFile_keyed (PagedFile.keeps_onStore h))
  have hpayloads {α : Type} {p : Procedure PageStore α}
      (h : Keeps (PageStore.Over first.payloads.file.store) p) :
      Keeps (From first) (onPayloadPages p) := by
    rw [from_eq]
    exact FilesKept.keeps_onPayloads (keeps_onPayloadFile (PagedFile.keeps_onStore h))
  exact (hrecords PageStore.keeps_pageIndexes).bind fun _ =>
    (hpayloads PageStore.keeps_pageIndexes).bind fun _ =>
    (hrecords (hsize _)).bind fun _ => (hpayloads (hsize _)).bind fun _ => keeps_memory.bind
      fun _ => keeps_pure _

/-- The queues that come up if one is opened or loaded and whatever is done with it, while other
programs change the disk in any way in between. -/
inductive Reached : Session Queue → Prop
  | opened {settings : Settings} {host : Host} {queue : Queue} {left : Session Unit}
      (hopen : (openFiles settings).outcome ⟨host, ()⟩ = (.ok queue, left)) :
      Reached ⟨left.host, queue⟩
  | loaded {settings : Settings} {host : Host} {queue : Queue} {left : Session Unit}
      (hload : (load settings).outcome ⟨host, ()⟩ = (.ok queue, left)) : Reached ⟨left.host, queue⟩
  | operated {s : Session Queue} (before : Reached s) (step : QueueStep) : Reached (step.next s)
  | disturbed {s : Session Queue} (before : Reached s) (host : Host) : Reached ⟨host, s.memory⟩

/-- Every step leaves a queue sane that was. -/
theorem keeps_sane_run (step : QueueStep) : Keeps Sane step.run := by
  cases step with
  | act action =>
    cases action with
    | call c => exact (keeps_sane_of fun _ => keeps_run c).bind fun _ => keeps_pure _
    | reopen closing policy =>
      have hreopen : Keeps Sane (QueueAction.reopen closing policy).run :=
        (reopen_sane closing policy).bind fun _ => keeps_pure _
      exact hreopen.bind fun _ => keeps_pure _
  | records => exact (keeps_sane_of keeps_records).bind fun _ => keeps_pure _
  | footprint => exact (keeps_sane_of keeps_footprint).bind fun _ => keeps_pure _
  | close => exact (keeps_sane_of fun _ => keeps_close).bind fun _ => keeps_pure _

/-- No step leaves a reservation behind. -/
theorem keeps_idle_run (step : QueueStep) : Keeps Idle step.run := by
  cases step with
  | act action =>
    cases action with
    | call c => exact (Idle.keeps_run c).bind fun _ => keeps_pure _
    | reopen closing policy =>
      have hreopen : Keeps Idle (QueueAction.reopen closing policy).run :=
        (Idle.keeps_reopen closing policy).bind fun _ => keeps_pure _
      exact hreopen.bind fun _ => keeps_pure _
  | records => exact Notes.keeps_records.bind fun _ => keeps_pure _
  | footprint => exact Notes.keeps_footprint.bind fun _ => keeps_pure _
  | close => exact Notes.keeps_close.bind fun _ => keeps_pure _

namespace Reached

variable {s : Session Queue}

/-- From a queue that was reached steps lead to others. -/
theorem after (h : Reached s) (steps : List QueueStep) : Reached (QueueStep.after steps s) := by
  induction steps generalizing s with
  | nil => exact h
  | cons step rest ih => exact ih (h.operated step)

/-- Every queue that was reached is sane. -/
theorem sane (h : Reached s) : s.memory.Sane := by
  induction h with
  | opened hopen => exact ((openFiles_sane _ _).of_ok hopen).1
  | loaded hload => exact ((load_sane _ _).of_ok hload).1
  | operated _ step ih => exact (keeps_sane_run step).outcome ih
  | disturbed _ _ ih => exact ih

/-- Between two operations no push is under way. -/
theorem idle (h : Reached s) : s.memory.Idle := by
  induction h with
  | opened hopen => exact (Idle.of_openFiles _ _).of_ok hopen
  | loaded hload => exact (Idle.of_load _ _).of_ok hload
  | operated _ step ih => exact (keeps_idle_run step).outcome ih
  | disturbed _ _ ih => exact ih

end Reached

end Queue

end PagedQueue
