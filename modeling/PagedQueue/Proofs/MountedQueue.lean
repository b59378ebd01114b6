import PagedQueue.Proofs.QueueState

/-!
# Queues over any pages

A queue is mounted if it is open over its two directories and its caches show what is on disk,
whatever the directories hold (`Queue.Mounted`). Unlike a queue that tracks a ledger it may have
records that are only begun, payloads that no record leads to, files with names of other kinds, and
directories that stand in place of pages.

`Queue.Changes` tells how much of the two byte spaces an operation replaced. Everything else that it
may do, such as making pages and filling them up, keeps the queue mounted and changes no byte of any
file.
-/

namespace PagedQueue

open Procedure
open Disk (Apart Confined)
open PageStore (Ready Touches Nowhere)
open MessageIndex (pagesOf reachOf)

/-! ## The directories -/

/-- The directories of a queue are there. -/
structure Disk.Grounds (d : Disk) (root : Path) : Prop where
  sound : d.Sound
  ways : ∀ {p : Path}, p <+: root ++ ["meta"] ∨ p <+: root ++ ["data"] →
    d.node? p = some .directory

/-- No directory stands in place of a page of a queue, and the pages bear the names written for
them. -/
structure Disk.Clear (d : Disk) (root : Path) : Prop where
  records : d.Tidy (root ++ ["meta"])
  payloads : d.Tidy (root ++ ["data"])

namespace Disk

variable {d d' : Disk} {root : Path} {pageSize : Nat} {touched written : Nat → Prop} {name : String}

theorem Stored.grounds {items : Items} {layout : Nat → Nat}
    (h : d.Stored root pageSize items layout) : d.Grounds root :=
  ⟨h.sound, h.ways⟩

theorem Stored.clear {items : Items} {layout : Nat → Nat}
    (h : d.Stored root pageSize items layout) : d.Clear root :=
  ⟨h.records.tidy, h.payloads.tidy⟩

theorem Grounds.records (h : d.Grounds root) : d.node? (root ++ ["meta"]) = some .directory :=
  h.ways (.inl List.prefix_rfl)

theorem Grounds.payloads (h : d.Grounds root) : d.node? (root ++ ["data"]) = some .directory :=
  h.ways (.inr List.prefix_rfl)

/-- An access to the pages of one of the directories leaves both as they should be. -/
theorem Grounds.confined (h : d.Grounds root)
    (hc : Confined (root ++ [name]) pageSize touched written d d') : d'.Grounds root :=
  ⟨hc.sound, fun hp => hc.kept (h.ways hp)⟩

/-- What is confined to a directory of the queue, within the pages that have an index, keeps the
ways clear. -/
theorem Clear.confined (h : d.Clear root)
    (hc : Confined (root ++ [name]) pageSize touched written d d')
    (htouched : ∀ o, touched o → o / pageSize ≤ PageName.maxIndex) : d'.Clear root :=
  ⟨hc.tidy htouched h.records, hc.tidy htouched h.payloads⟩

end Disk

namespace Queue

/-! ## Mounted queues -/

/-- The queue is open over its directories, and its caches show what is on disk. -/
structure Mounted (s : Session Queue) : Prop where
  isOpen : s.memory.isClosed = false
  valid : s.memory.settings.validate = .ok ()
  grounds : s.host.disk.Grounds (rootOf s.memory.settings)
  recordDirectory : s.memory.index.file.store.directory = Queue.recordDirectory s.memory.settings
  recordSize : s.memory.index.file.store.pageSize = s.memory.settings.pageSize
  payloadDirectory : s.memory.payloads.file.store.directory
    = Queue.payloadDirectory s.memory.settings
  payloadSize : s.memory.payloads.file.store.pageSize = s.memory.settings.pageSize
  recordCoherent : s.memory.index.file.store.Coherent s.host.disk
  payloadCoherent : s.memory.payloads.file.store.Coherent s.host.disk

/-- The bytes of the records. -/
def recordBytes (s : Session Queue) : ByteSpace :=
  s.host.disk.space (Queue.recordDirectory s.memory.settings) s.memory.settings.pageSize

/-- The bytes of the payloads. -/
def payloadBytes (s : Session Queue) : ByteSpace :=
  s.host.disk.space (Queue.payloadDirectory s.memory.settings) s.memory.settings.pageSize

/-- The page of an offset of the records is there. -/
def RecordPage (s : Session Queue) (o : Nat) : Prop :=
  s.host.disk.HasPage (Queue.recordDirectory s.memory.settings) (o / s.memory.settings.pageSize)

/-- The page of an offset of the payloads is there. -/
def PayloadPage (s : Session Queue) (o : Nat) : Prop :=
  s.host.disk.HasPage (Queue.payloadDirectory s.memory.settings) (o / s.memory.settings.pageSize)

/-- The page of an offset of the records is refused, or a directory stands in its place. -/
def RecordBarred (s : Session Queue) (o : Nat) : Prop :=
  s.host.disk.Barred (Queue.recordDirectory s.memory.settings) (o / s.memory.settings.pageSize)

/-- The queue goes on. Bytes of the records are replaced only at the offsets `records`, and bytes of
the payloads only at the offsets `payloads`. -/
structure Changes (records payloads : Nat → Prop) (s t : Session Queue) : Prop where
  mounted : Mounted t
  settings : t.memory.settings = s.memory.settings
  refused : t.host.disk.refused = s.host.disk.refused
  recordBytes : ∀ o, ¬ records o → Queue.recordBytes t o = Queue.recordBytes s o
  payloadBytes : ∀ o, ¬ payloads o → Queue.payloadBytes t o = Queue.payloadBytes s o
  kept : ∀ {path node}, s.host.disk.node? path = some node → t.host.disk.node? path = some node
  bytes : ∀ {path o byte},
    ¬ Disk.PlaceOf (recordDirectory s.memory.settings) s.memory.settings.pageSize records path o →
    ¬ Disk.PlaceOf (payloadDirectory s.memory.settings) s.memory.settings.pageSize payloads path o →
    s.host.disk.byteAt? path o = some byte → t.host.disk.byteAt? path o = some byte
  clear : s.host.disk.Clear (rootOf s.memory.settings) →
    t.host.disk.Clear (rootOf s.memory.settings)

variable {s t u : Session Queue} {records payloads touched written : Nat → Prop}

/-- An open queue is mounted. -/
theorem Opened.mounted {items : Items} {layout : Nat → Nat} (h : Opened items layout s) :
    Mounted s where
  isOpen := h.isOpen
  valid := h.valid
  grounds := h.kept.grounds
  recordDirectory := h.recordDirectory
  recordSize := h.recordSize
  payloadDirectory := h.payloadDirectory
  payloadSize := h.payloadSize
  recordCoherent := h.recordReady.coherent
  payloadCoherent := h.payloadReady.coherent

/-- A mounted queue whose directories hold messages. -/
theorem Mounted.opened (h : Mounted s) {items : Items} {layout : Nat → Nat}
    (hkept : Kept s.memory.settings items layout s.host.disk) : Opened items layout s where
  isOpen := h.isOpen
  valid := h.valid
  kept := hkept
  recordDirectory := h.recordDirectory
  recordSize := h.recordSize
  payloadDirectory := h.payloadDirectory
  payloadSize := h.payloadSize
  recordReady := ⟨h.grounds.sound, h.recordCoherent⟩
  payloadReady := ⟨h.grounds.sound, h.payloadCoherent⟩

namespace Mounted

theorem pageSize_pos (h : Mounted s) : 0 < s.memory.settings.pageSize :=
  ((Settings.validate_eq_ok_iff _).mp h.valid).1

theorem pageSize_dvd (h : Mounted s) : 8 ∣ s.memory.settings.pageSize :=
  ((Settings.validate_eq_ok_iff _).mp h.valid).2.1

/-- A page has room for the count. -/
theorem count_fits (h : Mounted s) : 4 ≤ s.memory.settings.pageSize := by
  have hpos := h.pageSize_pos
  have hdvd := h.pageSize_dvd
  omega

theorem recordReady (h : Mounted s) : Ready (pagesOf (indexOf s)) :=
  ⟨h.grounds.sound, h.recordCoherent⟩

theorem payloadReady (h : Mounted s) : Ready (payloadPagesOf s) :=
  ⟨h.grounds.sound, h.payloadCoherent⟩

/-- The record file of the session holds the bytes of its pages on disk. -/
theorem contents_records (h : Mounted s) :
    PageStore.contents (pagesOf (indexOf s)) = Queue.recordBytes s := by
  rw [PageStore.contents, Session.memory_part, Session.memory_part, Session.memory_part,
    h.recordDirectory, h.recordSize]
  rfl

/-- So does the payload file. -/
theorem contents_payloads (h : Mounted s) :
    PageStore.contents (payloadPagesOf s) = Queue.payloadBytes s := by
  rw [PageStore.contents, Session.memory_part, Session.memory_part, Session.memory_part,
    h.payloadDirectory, h.payloadSize]
  rfl

theorem refl (h : Mounted s) : Changes records payloads s s :=
  ⟨h, rfl, rfl, fun _ _ => rfl, fun _ _ => rfl, id, fun _ _ => id, id⟩

/-- The index reaches as far as its pages on disk. -/
theorem reachOf_eq (h : Mounted s) : reachOf (indexOf s)
    = s.host.disk.reach (Queue.recordDirectory s.memory.settings) s.memory.settings.pageSize := by
  rw [reachOf, Session.memory_part, Session.host_part, h.recordDirectory, h.recordSize]

/-- What an access to the pages of the records may have done to the disk. -/
theorem confinedRecords (h : Mounted s) {u : Session MessageIndex}
    (ha : Touches touched written (pagesOf (indexOf s)) (pagesOf u)) :
    Confined (Queue.recordDirectory s.memory.settings) s.memory.settings.pageSize touched written
      s.host.disk u.host.disk := by
  have hlast := ha.last
  rwa [Session.memory_part, Session.memory_part, Session.memory_part, h.recordDirectory,
    h.recordSize] at hlast

/-- What an access to the pages of the payloads may have done to the disk. -/
theorem confinedPayloads (h : Mounted s) {l : PayloadLog} {host : Host}
    (ha : Touches touched written (payloadPagesOf s) ⟨host, l.file.store⟩) :
    Confined (Queue.payloadDirectory s.memory.settings) s.memory.settings.pageSize touched written
      s.host.disk host.disk := by
  have hlast := ha.last
  rwa [Session.memory_part, Session.memory_part, Session.memory_part, h.payloadDirectory,
    h.payloadSize] at hlast

/-- An access to the pages of the records keeps a queue mounted. -/
theorem touchedRecords (h : Mounted s) {u : Session MessageIndex}
    (ha : Touches touched written (pagesOf (indexOf s)) (pagesOf u)) :
    Mounted ⟨u.host, { s.memory with index := u.memory }⟩ where
  isOpen := h.isOpen
  valid := h.valid
  grounds := h.grounds.confined (h.confinedRecords ha)
  recordDirectory := ha.same.directory.trans h.recordDirectory
  recordSize := ha.same.pageSize.trans h.recordSize
  payloadDirectory := h.payloadDirectory
  payloadSize := h.payloadSize
  recordCoherent := ha.coherent
  payloadCoherent := h.payloadCoherent.confined (h.confinedRecords ha)

/-- An access to the pages of the payloads keeps a queue mounted. -/
theorem touchedPayloads (h : Mounted s) {l : PayloadLog} {host : Host}
    (ha : Touches touched written (payloadPagesOf s) ⟨host, l.file.store⟩) :
    Mounted ⟨host, { s.memory with payloads := l }⟩ where
  isOpen := h.isOpen
  valid := h.valid
  grounds := h.grounds.confined (h.confinedPayloads ha)
  recordDirectory := h.recordDirectory
  recordSize := h.recordSize
  payloadDirectory := ha.same.directory.trans h.payloadDirectory
  payloadSize := ha.same.pageSize.trans h.payloadSize
  recordCoherent := h.recordCoherent.confined (h.confinedPayloads ha)
  payloadCoherent := ha.coherent

/-- The pages of the records were accessed, and the memory of the index may have changed. -/
theorem onRecords (h : Mounted s) {u : Session MessageIndex}
    (ha : Touches touched written (pagesOf (indexOf s)) (pagesOf u))
    (htouched : ∀ o, touched o → o / s.memory.settings.pageSize ≤ PageName.maxIndex) :
    Changes written Nowhere s ⟨u.host, { s.memory with index := u.memory }⟩ := by
  obtain ⟨hother, -, -⟩ := record_ne_payload s.memory.settings
  have hc := h.confinedRecords ha
  exact ⟨h.touchedRecords ha, rfl, hc.refused, fun o ho => hc.space_eq o ho,
    fun o _ => congrFun (hc.space_elsewhere hother.symm _) o, hc.kept,
    fun ho _ => hc.bytes ho, fun hclear => hclear.confined hc htouched⟩

/-- The pages of the payloads were accessed. -/
theorem onPayloads (h : Mounted s) {l : PayloadLog} {host : Host}
    (ha : Touches touched written (payloadPagesOf s) ⟨host, l.file.store⟩)
    (htouched : ∀ o, touched o → o / s.memory.settings.pageSize ≤ PageName.maxIndex) :
    Changes Nowhere written s ⟨host, { s.memory with payloads := l }⟩ := by
  obtain ⟨hother, -, -⟩ := record_ne_payload s.memory.settings
  have hc := h.confinedPayloads ha
  exact ⟨h.touchedPayloads ha, rfl, hc.refused, fun o _ => congrFun (hc.space_elsewhere hother _) o,
    fun o ho => hc.space_eq o ho, hc.kept, fun _ ho => hc.bytes ho,
    fun hclear => hclear.confined hc htouched⟩

/-- What an index holds in memory besides its file is no part of what is mounted. -/
theorem withIndex (h : Mounted s) {m : MessageIndex}
    (hfile : m.file.store = s.memory.index.file.store) :
    Changes Nowhere Nowhere s ⟨s.host, { s.memory with index := m }⟩ := by
  have ha : Touches Nowhere Nowhere (pagesOf (indexOf s)) (pagesOf ⟨s.host, m⟩) := by
    rw [show pagesOf ⟨s.host, m⟩ = pagesOf (indexOf s) from congrArg (Session.mk s.host) hfile]
    exact .refl h.recordReady
  exact h.onRecords ha fun _ => False.elim

/-- Where the next payload goes is no part of what is mounted. -/
theorem withPayloads (h : Mounted s) {l : PayloadLog}
    (hfile : l.file.store = s.memory.payloads.file.store) :
    Changes Nowhere Nowhere s ⟨s.host, { s.memory with payloads := l }⟩ := by
  have ha : Touches Nowhere Nowhere (payloadPagesOf s) ⟨s.host, l.file.store⟩ := by
    rw [hfile]
    exact .refl h.payloadReady
  exact h.onPayloads ha fun _ => False.elim

/-- What shows nowhere keeps a queue mounted. -/
theorem quiet (h : Mounted s) (hq : Quiet s t) : Changes Nowhere Nowhere s t := by
  have hdisk := hq.disk_eq
  have hsettings := hq.settings
  refine ⟨?_, hsettings, by rw [hdisk], fun o _ => ?_, fun o _ => ?_, fun hnode => hdisk ▸ hnode,
    fun _ _ hbyte => hdisk ▸ hbyte, fun hclear => hdisk ▸ hclear⟩
  · exact {
      isOpen := hq.isClosed.trans h.isOpen
      valid := hsettings ▸ h.valid
      grounds := by rw [hsettings, hdisk]; exact h.grounds
      recordDirectory := by rw [hsettings]; exact hq.recordSame.directory.trans h.recordDirectory
      recordSize := by rw [hsettings]; exact hq.recordSame.pageSize.trans h.recordSize
      payloadDirectory := by rw [hsettings]; exact hq.payloadSame.directory.trans h.payloadDirectory
      payloadSize := by rw [hsettings]; exact hq.payloadSame.pageSize.trans h.payloadSize
      recordCoherent := hdisk ▸ hq.recordCoherent
      payloadCoherent := hdisk ▸ hq.payloadCoherent }
  · rw [Queue.recordBytes, hdisk, hsettings, Queue.recordBytes]
  · rw [Queue.payloadBytes, hdisk, hsettings, Queue.payloadBytes]

end Mounted

namespace Changes

/-- One change of a queue after another is one. -/
theorem trans (h : Changes records payloads s t) (h' : Changes records payloads t u) :
    Changes records payloads s u where
  mounted := h'.mounted
  settings := h'.settings.trans h.settings
  refused := h'.refused.trans h.refused
  recordBytes o ho := (h'.recordBytes o ho).trans (h.recordBytes o ho)
  payloadBytes o ho := (h'.payloadBytes o ho).trans (h.payloadBytes o ho)
  kept hnode := h'.kept (h.kept hnode)
  bytes hrecords hpayloads hbyte :=
    h'.bytes (h.settings ▸ hrecords) (h.settings ▸ hpayloads) (h.bytes hrecords hpayloads hbyte)
  clear hclear := h.settings ▸ h'.clear (h.settings.symm ▸ h.clear hclear)

/-- A change within some bytes is one within more of them. -/
theorem mono (h : Changes records payloads s t) {records' payloads' : Nat → Prop}
    (hrecords : ∀ o, records o → records' o) (hpayloads : ∀ o, payloads o → payloads' o) :
    Changes records' payloads' s t :=
  { h with
    recordBytes := fun o ho => h.recordBytes o fun hin => ho (hrecords o hin)
    payloadBytes := fun o ho => h.payloadBytes o fun hin => ho (hpayloads o hin)
    bytes := fun ho ho' => h.bytes (fun hplace => ho (hplace.mono hrecords))
      fun hplace => ho' (hplace.mono hpayloads) }

/-- Pages that are there stay there. -/
theorem recordPage (h : Changes records payloads s t) (o : Nat) (ho : RecordPage s o) :
    RecordPage t o := by
  obtain ⟨id, hid⟩ := ho
  rw [RecordPage, h.settings]
  exact ⟨id, h.kept hid⟩

/-- No page of payloads is lost. -/
theorem payloadPage (h : Changes records payloads s t) (o : Nat) (ho : PayloadPage s o) :
    PayloadPage t o := by
  obtain ⟨id, hid⟩ := ho
  rw [PayloadPage, h.settings]
  exact ⟨id, h.kept hid⟩

/-- Pages that are barred stay barred. -/
theorem recordBarred (h : Changes records payloads s t) {o : Nat} (ho : RecordBarred s o) :
    RecordBarred t o := by
  rw [RecordBarred, h.settings]
  exact ho.imp (fun hrefused => h.refused ▸ hrefused) fun hnode => h.kept hnode

/-- No record byte differs where none was touched. -/
theorem recordBytes_eq (h : Changes Nowhere payloads s t) :
    Queue.recordBytes t = Queue.recordBytes s := funext fun o => h.recordBytes o id

/-- No payload byte differs where none was touched. -/
theorem payloadBytes_eq (h : Changes records Nowhere s t) :
    Queue.payloadBytes t = Queue.payloadBytes s := funext fun o => h.payloadBytes o id

end Changes

end Queue

end PagedQueue
