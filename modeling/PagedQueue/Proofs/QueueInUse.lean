import PagedQueue.Proofs.IndexedEntries
import PagedQueue.Proofs.QueueRefinement

/-!
# Queues in use

A queue is loaded, called, closed and opened anew, and calls may fail, because other programs do to
the disk whatever they like (`Queue.InUse`). Nothing of what is on disk can then be relied on. What
the queue holds in memory can (`Queue.Sane`): the pages in its caches fit, and its UUIDs lead to the
entries that have them. All that is done with a queue keeps this (`Queue.InUse.sane`).
-/

namespace PagedQueue

open Procedure
open PagedFile (Lies Lasting)
open MessageIndex (Keyed)

/-- Whether the call may count as a change of the messages. -/
def QueueCall.mayChange : QueueCall → Bool
  | push _ | lock _ | pop | finish _ | rollback _ => true
  | get _ | peek | status _ | size | recordCount | flush | checkpoint | recover | startEmpty =>
    false

namespace Queue

variable {first q : Queue} {α : Type}

/-- A queue with the settings of another one, over the same directories. -/
structure From (first q : Queue) : Prop where
  settings : q.settings = first.settings
  payloads : Lies first.payloads.file.store q.payloads.file
  index : Keyed (Lies first.index.file.store) q.index

/-- What a queue holds in memory is in order: its stores lie where the settings say, the pages in
their caches fit, and the UUIDs lead to the entries that have them. -/
structure Sane (q : Queue) : Prop where
  valid : q.settings.validate = .ok ()
  payloadDirectory : q.payloads.file.store.directory = Queue.payloadDirectory q.settings
  payloadSize : q.payloads.file.store.pageSize = q.settings.pageSize
  payloadsFit : q.payloads.file.store.Fitted
  recordDirectory : q.index.file.store.directory = Queue.recordDirectory q.settings
  recordSize : q.index.file.store.pageSize = q.settings.pageSize
  recordsFit : q.index.file.store.Fitted
  indexed : q.index.Indexed

/-- A queue goes on from itself. -/
theorem Sane.from_self (h : q.Sane) : From q q :=
  ⟨rfl, ⟨.refl _, h.payloadsFit⟩, ⟨.refl _, h.recordsFit⟩, h.indexed⟩

/-- A queue that goes on from a sane one is sane. -/
theorem From.sane (h : From first q) (hfirst : first.Sane) : q.Sane where
  valid := h.settings ▸ hfirst.valid
  payloadDirectory := by rw [h.payloads.1.directory, hfirst.payloadDirectory, h.settings]
  payloadSize := by rw [h.payloads.1.pageSize, hfirst.payloadSize, h.settings]
  payloadsFit := h.payloads.2
  recordDirectory := by rw [h.index.1.1.directory, hfirst.recordDirectory, h.settings]
  recordSize := by rw [h.index.1.1.pageSize, hfirst.recordSize, h.settings]
  recordsFit := h.index.1.2
  indexed := h.index.2

/-! ## Procedures on a queue -/

/-- A queue whose files have what is kept of them, while its settings and the number of its changes
are as told. -/
structure FilesKept (records payloads : PagedFile → Prop) (told : Settings → Nat → Prop)
    (q : Queue) : Prop where
  told : told q.settings q.changes
  payloads : payloads q.payloads.file
  index : Keyed records q.index

theorem keeps_onPayloadFile {kept : PagedFile → Prop} {p : Procedure PagedFile α}
    (h : Keeps kept p) :
    Keeps (fun log : PayloadLog => kept log.file) (PayloadLog.onFile p) :=
  .within fun _ hlog => ⟨kept, h, hlog, fun _ hfile => hfile⟩

namespace FilesKept

variable {records payloads : PagedFile → Prop} {told : Settings → Nat → Prop}

/-- A step of the index keeps what is kept of the record file. -/
theorem keeps_onIndex {p : Procedure MessageIndex α} (h : Keeps (Keyed records) p) :
    Keeps (FilesKept records payloads told) (onIndex p) :=
  .within fun _ hq => ⟨_, h, hq.index, fun _ hm => ⟨hq.told, hq.payloads, hm⟩⟩

/-- A step of the payload log keeps what is kept of the payload file. -/
theorem keeps_onPayloads {p : Procedure PayloadLog α} (h : Keeps (fun log => payloads log.file) p) :
    Keeps (FilesKept records payloads told) (onPayloads p) :=
  .within fun _ hq => ⟨_, h, hq.payloads, fun _ hlog => ⟨hq.told, hlog, hq.index⟩⟩

/-- To ask whether the queue is open changes nothing. -/
theorem keeps_ensureOpen : Keeps (FilesKept records payloads told) ensureOpen :=
  keeps_memory.bind fun _ => .ite (keeps_throw _) (keeps_pure _)

theorem keeps_readMessage
    (hread : ∀ start length, Keeps payloads (PagedFile.readBytes start length))
    (id : EntryId) : Keeps (FilesKept records payloads told) (readMessage id) :=
  keeps_memory.bind fun _ => (keeps_onPayloads (keeps_onPayloadFile (hread _ _))).bind fun _ =>
    keeps_pure _

section

variable (hrecords : Lasting records) (hpayloads : Lasting payloads)
include hrecords hpayloads

theorem keeps_flushFiles : Keeps (FilesKept records payloads told) flushFiles :=
  (keeps_onPayloads (keeps_onPayloadFile hpayloads.flush)).bind fun _ =>
    keeps_onIndex (MessageIndex.keeps_onFile_keyed hrecords.flush)

/-- To store a message keeps the two files. -/
theorem keeps_store (m : Message) : Keeps (FilesKept records payloads told) (store m) := by
  have happend : Keeps (fun log => payloads log.file) (PayloadLog.append m.payload) := by
    unfold PayloadLog.append PayloadLog.reserve
    refine Keeps.bind (keeps_memory.bind fun _ => .bind (keeps_update fun _ h => h) fun _ =>
      keeps_pure _) fun _ => ?_
    exact (keeps_onPayloadFile (hpayloads.writeBytes _ _)).bind fun _ => keeps_pure _
  exact (keeps_onPayloads happend).bind fun _ => (keeps_onIndex
    (MessageIndex.keeps_publish hrecords _ _ _ _)).discard

/-- So does recovery. -/
theorem keeps_recover : Keeps (FilesKept records payloads told) recover := by
  have hindex : Keeps (Keyed records) MessageIndex.recover :=
    fun _ hs => MessageIndex.recover_keyed hrecords hs.1
  have hlog : Keeps (fun log => payloads log.file) PayloadLog.recover :=
    (keeps_onPayloadFile hpayloads.recoverLength).bind fun _ =>
      .bind (keeps_update fun _ h => h) fun _ => keeps_pure _
  exact keeps_ensureOpen.bind fun _ => (keeps_onIndex hindex).bind fun _ =>
    (keeps_onPayloads hlog).discard.bind fun _ => keeps_pure _

/-- So does a start afresh, which counts its changes from zero. -/
theorem keeps_startEmpty (hreset : ∀ settings changes, told settings changes → told settings 0) :
    Keeps (FilesKept records payloads told) startEmpty := by
  have hindex : Keeps (Keyed records) MessageIndex.startEmpty :=
    fun _ hs => MessageIndex.startEmpty_keyed hrecords hs.1
  have hlog : Keeps (fun log => payloads log.file) PayloadLog.startEmpty :=
    (keeps_onPayloadFile hpayloads.reset).bind fun _ => keeps_update fun _ h => h
  exact keeps_ensureOpen.bind fun _ => (keeps_onIndex hindex).bind fun _ =>
    (keeps_onPayloads hlog).bind fun _ => keeps_update fun _ h =>
      ⟨hreset _ _ h.told, h.payloads, h.index⟩

/-- So does closing. -/
theorem keeps_close : Keeps (FilesKept records payloads told) close := by
  unfold close
  refine keeps_memory.bind fun _ => .ite (keeps_pure _) ?_
  refine .bind (keeps_update fun _ h => ⟨h.told, h.payloads, h.index⟩) fun _ => ?_
  exact (keeps_onPayloads (keeps_onPayloadFile hpayloads.close)).bind fun _ =>
    keeps_onIndex (MessageIndex.keeps_onFile_keyed hrecords.close)

/-- Whatever is asked of a queue, what is told of the number of its changes need only go on where a
change is counted and where the queue is emptied. -/
theorem keeps_run (hrecordPages : Keeps records (PagedFile.onStore checkpointPages))
    (hpayloadPages : Keeps payloads (PagedFile.onStore checkpointPages)) (c : QueueCall)
    (hafter : c.mayChange = true → Keeps (FilesKept records payloads told) afterChange)
    (hreset : c = .startEmpty → ∀ settings changes, told settings changes → told settings 0) :
    Keeps (FilesKept records payloads told) c.run := by
  have hread (id? : Option EntryId) : Keeps (FilesKept records payloads told)
      (readMessage? id?) := by
    cases id? with
    | none => exact keeps_pure _
    | some id => exact (keeps_readMessage hpayloads.readBytes id).bind fun _ => keeps_pure _
  have hchange {move : Procedure MessageIndex (Option EntryId)} (hmay : c.mayChange = true)
      (hmove : Keeps (Keyed records) move) : Keeps (FilesKept records payloads told)
      (change move) := by
    unfold change
    refine keeps_ensureOpen.bind fun _ => (keeps_onIndex hmove).bind fun moved => ?_
    cases moved with
    | none => exact keeps_pure _
    | some id =>
      exact (hafter hmay).bind fun _ => (keeps_readMessage hpayloads.readBytes id).bind fun _ =>
        keeps_pure _
  have hmove (uuid : Uuid) (expected status : Status) :=
    MessageIndex.keeps_transition hrecords uuid expected status
  cases c with
  | push m =>
    refine Keeps.bind ?_ fun _ => keeps_pure _
    refine keeps_ensureOpen.bind fun _ => .ite (keeps_throw _) (.ite (keeps_throw _) ?_)
    refine (keeps_onIndex (MessageIndex.keeps_reserve _)).bind fun _ => .ite (keeps_pure _) ?_
    refine ((keeps_store hrecords hpayloads m).tryFinally
      (keeps_onIndex (MessageIndex.keeps_withdraw _))).bind fun _ => ?_
    exact (hafter rfl).bind fun _ => keeps_pure _
  | get uuid =>
    exact (keeps_ensureOpen.bind fun _ => keeps_memory.bind fun _ => hread _).bind fun _ =>
      keeps_pure _
  | lock uuid => exact (hchange rfl (hmove _ _ _)).bind fun _ => keeps_pure _
  | pop => exact (hchange rfl (MessageIndex.keeps_pop hrecords)).bind fun _ => keeps_pure _
  | peek =>
    exact (keeps_ensureOpen.bind fun _ => keeps_memory.bind fun _ => hread _).bind fun _ =>
      keeps_pure _
  | finish uuid =>
    exact (hchange rfl (MessageIndex.keeps_finish hrecords uuid)).bind fun _ => keeps_pure _
  | rollback uuid => exact (hchange rfl (hmove _ _ _)).bind fun _ => keeps_pure _
  | status uuid => exact keeps_memory.bind fun _ => keeps_pure _
  | size => exact keeps_memory.bind fun _ => keeps_pure _
  | recordCount => exact keeps_memory.bind fun _ => keeps_pure _
  | flush =>
    exact (keeps_ensureOpen.bind fun _ => keeps_flushFiles hrecords hpayloads).bind fun _ =>
      keeps_pure _
  | checkpoint =>
    refine Keeps.bind ((keeps_onIndex ?_).bind fun _ => keeps_onPayloads ?_) fun _ => keeps_pure _
    · exact MessageIndex.keeps_onFile_keyed hrecordPages
    · exact keeps_onPayloadFile hpayloadPages
  | recover => exact (keeps_recover hrecords hpayloads).bind fun _ => keeps_pure _
  | startEmpty =>
    exact (keeps_startEmpty hrecords hpayloads (hreset rfl)).bind fun _ => keeps_pure _

end

end FilesKept

/-! ## Queues over the same directories -/

/-- The queues with the settings of another one are those whose files lie where its files lie. -/
theorem from_eq (first : Queue) : From first = FilesKept (Lies first.index.file.store)
    (Lies first.payloads.file.store) fun settings _ => settings = first.settings := by
  funext q
  exact propext ⟨fun h => ⟨h.settings, h.payloads, h.index⟩, fun h => ⟨h.told, h.payloads, h.index⟩⟩

/-- The queue goes on from where it was when it is forced out. -/
theorem keeps_flushFiles : Keeps (From first) flushFiles := by
  rw [from_eq]
  exact FilesKept.keeps_flushFiles (PagedFile.lasting_lies _) (PagedFile.lasting_lies _)

theorem keeps_afterChange : Keeps (From first) afterChange := by
  have hchanges (f : Queue → Nat) :
      Keeps (From first) (update fun q => { q with changes := f q }) :=
    keeps_update fun _ h => ⟨h.settings, h.payloads, h.index⟩
  unfold afterChange
  refine keeps_memory.bind fun q => ?_
  split
  · exact keeps_flushFiles
  · refine (hchanges _).bind fun _ => keeps_memory.bind fun _ => .ite ?_ (keeps_pure _)
    exact (hchanges _).bind fun _ => keeps_flushFiles
  · exact keeps_pure _
  · exact keeps_pure _

/-- It does so when it recovers. -/
theorem keeps_recover : Keeps (From first) recover := by
  rw [from_eq]
  exact FilesKept.keeps_recover (PagedFile.lasting_lies _) (PagedFile.lasting_lies _)

theorem keeps_startEmpty : Keeps (From first) startEmpty := by
  rw [from_eq]
  exact FilesKept.keeps_startEmpty (PagedFile.lasting_lies _) (PagedFile.lasting_lies _)
    fun _ _ => id

theorem keeps_close : Keeps (From first) close := by
  rw [from_eq]
  exact FilesKept.keeps_close (PagedFile.lasting_lies _) (PagedFile.lasting_lies _)

theorem keeps_checkpointPages (store : PageStore) :
    Keeps (Lies store) (PagedFile.onStore checkpointPages) :=
  PagedFile.keeps_onStore <| .bind (keeps_update fun _ => PageStore.over_flush) fun _ =>
    PageStore.keeps_sweep.discard

/-- It does so under every call. -/
theorem keeps_run (c : QueueCall) : Keeps (From first) c.run := by
  have hafter : Keeps (From first) afterChange := keeps_afterChange
  rw [from_eq] at hafter ⊢
  exact FilesKept.keeps_run (PagedFile.lasting_lies _) (PagedFile.lasting_lies _)
    (keeps_checkpointPages _) (keeps_checkpointPages _) c
    (fun _ => hafter) fun _ _ _ => id

/-! ## Opening -/

/-- A queue that was just opened is sane, whatever is on disk. -/
theorem openFiles_sane {σ : Type} (settings : Settings) (s : Session σ) :
    (openFiles settings).Leads s (fun q t => q.Sane ∧ t.memory = s.memory)
      fun _ t => t.memory = s.memory := by
  have hdirectories (path : Path) {t : Session σ} (ht : t.memory = s.memory) :
      (PageStore.makeDirectories path).Leads t (fun _ u => u.memory = s.memory)
        fun _ u => u.memory = s.memory := by
    have hkeeps : Keeps (· = s.memory) (PageStore.makeDirectories path : Procedure σ Unit) :=
      keeps_disk.bind fun _ => (keeps_ofOption _ _).bind fun _ => .forM (fun _ => keeps_perform _) _
    exact hkeeps t ht
  have hstore (directory : Path) {t : Session σ} (ht : t.memory = s.memory) :
      (PageStore.create directory settings.pageSize settings.lifetime).Leads t
        (fun store u => (store.directory = directory ∧ store.pageSize = settings.pageSize
          ∧ store.Fitted) ∧ u.memory = s.memory) fun _ u => u.memory = s.memory := by
    unfold PageStore.create
    split
    · rw [leads_bind]
      refine (hdirectories directory ht).mono (fun _ u hu => ?_) fun _ _ => id
      exact ⟨⟨rfl, rfl, .of_cached_empty rfl⟩, hu⟩
    · exact ht
  have hfile {store : PageStore} (hfits : store.Fitted) {t : Session σ} (ht : t.memory = s.memory) :
      (PagedFile.ofStore store).Leads t (fun file u => Lies store file ∧ u.memory = s.memory)
        fun _ u => u.memory = s.memory := by
    unfold PagedFile.ofStore
    simp only [leads_bind, leads_launch, leads_pure]
    refine (PagedFile.keeps_recoverLength ⟨t.host, { store }⟩ ⟨.refl _, hfits⟩).mono
      (fun _ u hu => ⟨hu, ht⟩) fun _ _ _ => ht
  unfold openFiles
  cases hvalid : settings.validate with
  | error fault => exact rfl
  | ok =>
    simp only [leads_bind, leads_ofExcept_ok, leads_pure]
    refine (hdirectories _ rfl).mono (fun _ t ht => ?_) fun _ _ => id
    refine (hstore _ ht).mono (fun records u hu => ?_) fun _ _ => id
    refine (hstore _ hu.2).mono (fun payloads v hv => ?_) fun _ _ => id
    obtain ⟨⟨hrecords, hrecordSize, hrecordsFit⟩, -⟩ := hu
    obtain ⟨⟨hpayloads, hpayloadSize, hpayloadsFit⟩, hmemory⟩ := hv
    refine (hfile hrecordsFit hmemory).mono (fun recordFile w hw => ?_) fun _ _ => id
    refine (hfile hpayloadsFit hw.2).mono (fun payloadFile x hx => ⟨?_, hx.2⟩) fun _ _ => id
    exact {
      valid := hvalid
      payloadDirectory := hx.1.1.directory.trans hpayloads
      payloadSize := hx.1.1.pageSize.trans hpayloadSize
      payloadsFit := hx.1.2
      recordDirectory := hw.1.1.directory.trans hrecords
      recordSize := hw.1.1.pageSize.trans hrecordSize
      recordsFit := hw.1.2
      indexed := MessageIndex.indexed_of_empty rfl }

/-- A queue that is loaded is sane. -/
theorem load_sane {σ : Type} (settings : Settings) (s : Session σ) :
    (load settings).Leads s (fun q t => q.Sane ∧ t.memory = s.memory)
      fun _ t => t.memory = s.memory := by
  have hpages (first : Queue) : Keeps (From first) (onRecordPages PageStore.pageIndexes) := by
    rw [from_eq]
    exact FilesKept.keeps_onIndex (MessageIndex.keeps_onFile_keyed (PagedFile.keeps_onStore
      PageStore.keeps_pageIndexes))
  unfold load
  rw [leads_bind]
  refine (openFiles_sane settings s).mono (fun q t ht => ?_) fun _ _ => id
  have hstart : Keeps (From q) recoverOrStart :=
    (hpages q).bind fun _ => .ite keeps_startEmpty keeps_recover.discard
  simp only [leads_bind, leads_launch, leads_pure]
  refine (hstart ⟨t.host, q⟩ ht.1.from_self).mono (fun _ u hu => ?_) fun _ _ _ => ht.2
  exact ⟨hu.sane ht.1, ht.2⟩

/-- It is sane again when it is opened again. -/
theorem reopen_sane (closing : Bool) (policy : Policy) : Keeps Sane (reopen closing policy) := by
  have hclose : Keeps Sane close := fun s hs =>
    (keeps_close s hs.from_self).mono (fun _ _ ht => ht.sane hs) fun _ _ ht => ht.sane hs
  have hload (settings : Settings) : Keeps Sane (do
      let queue ← load settings
      update fun _ => queue) := by
    intro s hs
    rw [leads_bind]
    exact (load_sane settings s).mono (fun _ _ ht => ht.1) fun _ _ ht => ht ▸ hs
  have hopen : Keeps Sane (do
      let queue ← load (policy.onSettings (← memory).settings)
      update fun _ => queue) := keeps_memory.bind fun _ => hload _
  cases closing with
  | false => exact hopen
  | true => exact hclose.bind fun _ => hopen

/-! ## Queues that came up in any way -/

/-- The queues that come up if a queue is loaded, called, closed and opened anew, any number of
times, while other programs change the disk in any way between the calls. -/
inductive InUse : Session Queue → Prop
  | loaded {settings : Settings} {host : Host} {queue : Queue} {opened : Session Unit}
      (hload : (load settings).outcome ⟨host, ()⟩ = (.ok queue, opened)) :
      InUse ⟨opened.host, queue⟩
  | acted {s : Session Queue} (before : InUse s) (action : QueueAction) :
      InUse (action.run.outcome s).2
  | closed {s : Session Queue} (before : InUse s) : InUse (close.outcome s).2
  | disturbed {s : Session Queue} (before : InUse s) (host : Host) : InUse ⟨host, s.memory⟩

/-- A queue in use is sane. -/
theorem InUse.sane {s : Session Queue} (h : InUse s) : s.memory.Sane := by
  induction h with
  | loaded hload => exact ((load_sane _ _).of_ok hload).1
  | acted _ action ih =>
    cases action with
    | call c => exact ((keeps_run c).outcome ih.from_self).sane ih
    | reopen closing policy =>
      exact ((reopen_sane closing policy).bind fun _ => keeps_pure _).outcome ih
  | closed _ ih => exact (keeps_close.outcome ih.from_self).sane ih
  | disturbed _ _ ih => exact ih

/-- The queue that is loaded with a host, if it can be. -/
def loaded? (settings : Settings) (host : Host) : Option (Session Queue) :=
  match (load settings).outcome (⟨host, ()⟩ : Session Unit) with
  | (.ok queue, opened) => some ⟨opened.host, queue⟩
  | (.error _, _) => none

/-- What was loaded came from a load that did not fail. -/
theorem load_of_loaded? {settings : Settings} {host : Host} {s : Session Queue}
    (h : loaded? settings host = some s) : ∃ queue opened,
      (load settings).outcome (⟨host, ()⟩ : Session Unit) = (.ok queue, opened)
        ∧ s = ⟨opened.host, queue⟩ := by
  unfold loaded? at h
  split at h
  next queue opened hload => exact ⟨queue, opened, hload, (Option.some.inj h).symm⟩
  next => cases h

/-- A queue is in use from its load on. -/
theorem InUse.of_loaded? {settings : Settings} {host : Host} {s : Session Queue}
    (h : loaded? settings host = some s) : InUse s := by
  obtain ⟨queue, opened, hload, rfl⟩ := load_of_loaded? h
  exact .loaded hload

end Queue

end PagedQueue
