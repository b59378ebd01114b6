import PagedQueue.Proofs.IndexOpening

/-!
# The state of a queue

The directories of a queue hold a list of messages if one holds their records and the other their
payloads (`Disk.Stored`). A queue in memory tracks a ledger if, moreover, its index carries the
list, both caches show what is on disk, and the next payload goes behind all others
(`Queue.Tracks`).

Every operation goes from one ledger to another (`Queue.Goes`), and all the way the directories hold
the messages of the one or of the other.
-/

namespace PagedQueue

open Procedure
open Disk (Apart Confined Records Payloads)
open PageStore (Ready Access Touches Nowhere Turns)
open MessageIndex (Holding Carries Becomes pagesOf reachOf)

/-! ## Settings that can work -/

/-- When settings are accepted. -/
theorem Settings.validate_eq_ok_iff (settings : Settings) : settings.validate = .ok ()
    ↔ 0 < settings.pageSize ∧ 8 ∣ settings.pageSize ∧ settings.pageSize ≤ Settings.maxPageSize
      ∧ settings.lifetime ≠ 0 ∧ settings.durability ≠ .everyOperations 0
      ∧ settings.durability ≠ .interval 0 := by
  unfold validate
  by_cases hunaligned : settings.pageSize = 0 ∨ settings.pageSize % 8 ≠ 0
  · rw [if_pos hunaligned]
    refine ⟨nofun, fun ⟨hpos, ⟨k, hk⟩, _⟩ => ?_⟩
    omega
  · by_cases hlarge : settings.pageSize > Settings.maxPageSize
    · rw [if_neg hunaligned, if_pos hlarge]
      exact ⟨nofun, fun ⟨_, _, hle, _⟩ => absurd hlarge (Nat.not_lt_of_le hle)⟩
    · have hpos : 0 < settings.pageSize := by omega
      have hdvd : 8 ∣ settings.pageSize := by omega
      rw [if_neg hunaligned, if_neg hlarge]
      by_cases hlifetime : settings.lifetime = 0
      · rw [if_pos hlifetime]
        exact ⟨nofun, fun ⟨_, _, _, hne, _⟩ => absurd hlifetime hne⟩
      · rw [if_neg hlifetime]
        rcases settings.durability with _ | _ | (_ | _) | (_ | _) <;>
          simp [hpos, hdvd, hlifetime, Nat.le_of_not_lt hlarge]

/-! ## The directories -/

/-- The directories of a queue hold the messages: one their records, one their payloads. -/
structure Disk.Stored (d : Disk) (root : Path) (pageSize : Nat) (items : Items)
    (layout : Nat → Nat) : Prop where
  sound : d.Sound
  ways : ∀ {p : Path}, p <+: root ++ ["meta"] ∨ p <+: root ++ ["data"] →
    d.node? p = some .directory
  records : d.Records (root ++ ["meta"]) pageSize items layout
  payloads : d.Payloads (root ++ ["data"]) pageSize (items.map Item.payload) layout
  wellFormed : items.WellFormed

namespace Disk.Stored

variable {d d' : Disk} {root : Path} {pageSize : Nat} {items items' : Items}
  {layout layout' : Nat → Nat}

/-- Directories without pages hold no message. -/
theorem nil (hsound : d.Sound)
    (hways : ∀ {p : Path}, p <+: root ++ ["meta"] ∨ p <+: root ++ ["data"] →
      d.node? p = some .directory)
    (hrecords : d.Tidy (root ++ ["meta"])) (hpayloads : d.Tidy (root ++ ["data"]))
    (hnone : ∀ index, ¬ d.HasPage (root ++ ["meta"]) index) (layout : Nat → Nat) :
    d.Stored root pageSize [] layout where
  sound := hsound
  ways := hways
  records := by
    have hblank : d.space (root ++ ["meta"]) pageSize = ByteSpace.blank :=
      funext fun o => Disk.space_of_no_page (hnone _)
    refine .of_count_zero hrecords ?_ layout
    rw [hblank]
    rfl
  payloads := .nil hpayloads layout
  wellFormed := .nil

/-- Dates do not matter to what is stored. -/
theorem alike (h : d.Stored root pageSize items layout) (hd : Alike d d') :
    d'.Stored root pageSize items layout where
  sound := hd.sound h.sound
  ways hp := (hd.node? _).symm.trans (h.ways hp)
  records := h.records.alike hd
  payloads := h.payloads.alike hd
  wellFormed := h.wellFormed

/-- No way to a directory of the queue leads through one of them. -/
theorem dropLast_ne {p : Path} {name other : String} (hp : p <+: root ++ [name]) :
    p.dropLast ≠ root ++ [other] := by
  intro heq
  have hlength := congrArg List.length heq
  have hle := hp.length_le
  simp only [List.length_dropLast, List.length_append, List.length_singleton] at hlength hle
  omega

/-- Directories on the ways stay where they are. -/
theorem ways_apart (h : d.Stored root pageSize items layout) {name : String}
    (ha : Apart (root ++ [name]) d d') {p : Path}
    (hp : p <+: root ++ ["meta"] ∨ p <+: root ++ ["data"]) : d'.node? p = some .directory := by
  rw [ha.node? p (hp.elim dropLast_ne dropLast_ne)]
  exact h.ways hp

theorem meta_ne_data : root ++ ["meta"] ≠ root ++ ["data"] := by simp

/-- The records of the old messages or of the new ones are held, and the payloads are those of
both. -/
theorem turn (h : d.Stored root pageSize items layout)
    (hpayloads : d.Payloads (root ++ ["data"]) pageSize (items'.map Item.payload) layout')
    (hwell : items'.WellFormed) (ha : Apart (root ++ ["meta"]) d d')
    (hd : d'.Records (root ++ ["meta"]) pageSize items layout
      ∨ d'.Records (root ++ ["meta"]) pageSize items' layout') :
    d'.Stored root pageSize items layout ∨ d'.Stored root pageSize items' layout' := by
  have hup : (root ++ ["data"]).dropLast ≠ root ++ ["meta"] := dropLast_ne List.prefix_rfl
  rcases hd with hrecords | hrecords
  · exact .inl ⟨ha.sound, h.ways_apart ha, hrecords,
      h.payloads.elsewhere ha meta_ne_data.symm hup, h.wellFormed⟩
  · exact .inr ⟨ha.sound, h.ways_apart ha, hrecords,
      hpayloads.elsewhere ha meta_ne_data.symm hup, hwell⟩

/-- Something happens to the pages of the payloads, and those that are held stay. -/
theorem aside (h : d.Stored root pageSize items layout) (ha : Apart (root ++ ["data"]) d d')
    (hpayloads : d'.Payloads (root ++ ["data"]) pageSize (items.map Item.payload) layout) :
    d'.Stored root pageSize items layout where
  sound := ha.sound
  ways := h.ways_apart ha
  records := h.records.elsewhere ha meta_ne_data (dropLast_ne List.prefix_rfl)
  payloads := hpayloads
  wellFormed := h.wellFormed

end Disk.Stored

/-! ## The queue in memory -/

namespace Queue

/-- The index of a queue. -/
abbrev indexOf (s : Session Queue) : Session MessageIndex := s.part index

/-- The pages of the payloads of a queue. -/
abbrev payloadPagesOf (s : Session Queue) : Session PageStore :=
  (((s.part payloads).part PayloadLog.file).part PagedFile.store)

/-- The directory above those of the queue. -/
def rootOf (settings : Settings) : Path := Path.ofString settings.directory

/-- The directories of a queue with these settings hold the messages. -/
abbrev Kept (settings : Settings) (items : Items) (layout : Nat → Nat) (d : Disk) : Prop :=
  d.Stored (rootOf settings) settings.pageSize items layout

/-- The queue is open over directories that hold the messages, and its caches show what is on
disk. -/
structure Opened (items : Items) (layout : Nat → Nat) (s : Session Queue) : Prop where
  isOpen : s.memory.isClosed = false
  valid : s.memory.settings.validate = .ok ()
  kept : Kept s.memory.settings items layout s.host.disk
  recordDirectory : s.memory.index.file.store.directory = Queue.recordDirectory s.memory.settings
  recordSize : s.memory.index.file.store.pageSize = s.memory.settings.pageSize
  payloadDirectory : s.memory.payloads.file.store.directory
    = Queue.payloadDirectory s.memory.settings
  payloadSize : s.memory.payloads.file.store.pageSize = s.memory.settings.pageSize
  recordReady : Ready (pagesOf (indexOf s))
  payloadReady : Ready (payloadPagesOf s)

/-- The queue tracks the ledger, whose payloads begin as `layout` says: the index carries the
messages, and the next payload goes behind all others and behind all pages but the last. -/
structure Tracks (l : Ledger) (layout : Nat → Nat) (s : Session Queue) : Prop
    extends Opened l.items layout s where
  index : Carries l.items layout (indexOf s)
  started : reachOf (indexOf s) ≠ 0
  cursor : s.memory.payloads.cursor = l.stop
  behind : ∀ {p : Nat} {bytes : List UInt8} {o : Nat}, (l.items.map Item.payload)[p]? = some bytes →
    InRange (layout p) bytes.length o → o < l.stop
  reach : s.host.disk.reach (Queue.payloadDirectory s.memory.settings) s.memory.settings.pageSize
    = pageEnd s.memory.settings.pageSize l.stop

/-- The disk, on the way from some messages to others: it holds the ones or the others. -/
abbrev Passes (settings : Settings) (items : Items) (layout : Nat → Nat) (items' : Items)
    (layout' : Nat → Nat) (h h' : Host) : Prop :=
  Trail (fun d => Kept settings items layout d ∨ Kept settings items' layout' d) h h'

/-- The queue comes to track a ledger, and all the way the directories hold the messages that they
held before or those of the ledger. -/
structure Goes (items : Items) (layout : Nat → Nat) (l : Ledger) (layout' : Nat → Nat)
    (s t : Session Queue) : Prop where
  tracks : Tracks l layout' t
  passes : Passes s.memory.settings items layout l.items layout' s.host t.host
  settings : t.memory.settings = s.memory.settings
  pending : ∀ uuid, t.memory.index.pending.contains uuid = s.memory.index.pending.contains uuid

variable {items items' : Items} {l l' l'' : Ledger} {layout layout' layout'' : Nat → Nat}
  {s t u : Session Queue}

theorem Opened.pageSize_pos (h : Opened items layout s) : 0 < s.memory.settings.pageSize :=
  ((Settings.validate_eq_ok_iff _).mp h.valid).1

theorem Opened.pageSize_dvd (h : Opened items layout s) : 8 ∣ s.memory.settings.pageSize :=
  ((Settings.validate_eq_ok_iff _).mp h.valid).2.1

/-- A page has room for the count. -/
theorem Opened.count_fits (h : Opened items layout s) : 4 ≤ s.memory.index.file.store.pageSize := by
  have hpos := h.pageSize_pos
  have hdvd := h.pageSize_dvd
  rw [h.recordSize]
  omega

theorem Opened.reachOf_eq (h : Opened items layout s) : reachOf (indexOf s)
    = s.host.disk.reach (Queue.recordDirectory s.memory.settings) s.memory.settings.pageSize := by
  rw [reachOf, Session.memory_part, Session.host_part, h.recordDirectory, h.recordSize]

/-- The index of an open queue holds the items. -/
theorem Opened.holding (h : Opened items layout s) :
    Holding (indexOf s) items layout s.host.disk := by
  rw [Holding, Session.memory_part, h.recordDirectory, h.recordSize]
  exact h.kept.records

theorem Tracks.refl (h : Tracks l layout s) : Goes l.items layout l layout s s :=
  ⟨h, .start (.inl h.kept), rfl, fun _ => rfl⟩

/-- Two operations of which one leaves the messages as they are. -/
theorem Goes.comp (h : Goes items layout l layout' s t) (h' : Goes l.items layout' l' layout'' t u)
    (hstay : l.items = items ∧ layout' = layout ∨ l'.items = l.items ∧ layout'' = layout') :
    Goes items layout l' layout'' s u where
  tracks := h'.tracks
  passes := by
    have hrest := h'.passes
    rw [Passes, h.settings] at hrest
    rcases hstay with ⟨rfl, rfl⟩ | ⟨hitems, rfl⟩
    · exact (h.passes.mono fun _ hd => .inl (hd.elim id id)).trans hrest
    · rw [Passes, hitems]
      rw [hitems] at hrest
      exact h.passes.trans (hrest.mono fun _ hd => .inr (hd.elim id id))
  settings := h'.settings.trans h.settings
  pending uuid := (h'.pending uuid).trans (h.pending uuid)

/-! ## One side changes -/

/-- The directories of the records and of the payloads are two, and neither is above the other. -/
theorem record_ne_payload (settings : Settings) :
    Queue.recordDirectory settings ≠ Queue.payloadDirectory settings
      ∧ (Queue.recordDirectory settings).dropLast ≠ Queue.payloadDirectory settings
      ∧ (Queue.payloadDirectory settings).dropLast ≠ Queue.recordDirectory settings := by
  refine ⟨Disk.Stored.meta_ne_data, ?_, ?_⟩
  · rw [Queue.recordDirectory, List.dropLast_concat, Queue.payloadDirectory]
    simp
  · rw [Queue.payloadDirectory, List.dropLast_concat, Queue.recordDirectory]
    simp

/-- The index turns from one list to another, and the payloads of both are there. -/
theorem Opened.turn (h : Opened items layout s) {u : Session MessageIndex}
    (hturns : Turns (Holding (indexOf s) items layout) (Holding (indexOf s) items' layout')
      (pagesOf (indexOf s)) (pagesOf u))
    (hrecords : Holding u items' layout' u.host.disk) (hwell : items'.WellFormed)
    (hpayloads : s.host.disk.Payloads (Queue.payloadDirectory s.memory.settings)
      s.memory.settings.pageSize (items'.map Item.payload) layout') :
    Opened items' layout' ⟨u.host, { s.memory with index := u.memory }⟩
      ∧ Passes s.memory.settings items layout items' layout' s.host u.host
      ∧ u.host.disk.reach (Queue.payloadDirectory s.memory.settings) s.memory.settings.pageSize
        = s.host.disk.reach (Queue.payloadDirectory s.memory.settings)
          s.memory.settings.pageSize := by
  obtain ⟨hother, -, hup⟩ := record_ne_payload s.memory.settings
  have hdirectory : u.memory.file.store.directory = s.memory.index.file.store.directory :=
    hturns.same.directory
  have hsize : u.memory.file.store.pageSize = s.memory.index.file.store.pageSize :=
    hturns.same.pageSize
  -- the records turn, and the payloads of both lists are there all the time
  have hway (d : Disk) (hd : PageStore.OnTheWay (Holding (indexOf s) items layout)
      (Holding (indexOf s) items' layout') (pagesOf (indexOf s)) d) :
      Kept s.memory.settings items layout d ∨ Kept s.memory.settings items' layout' d := by
    obtain ⟨hapart, hd⟩ := hd
    simp only [Holding, Session.memory_part, h.recordDirectory, h.recordSize] at hapart hd
    exact h.kept.turn hpayloads hwell hapart hd
  have hapart : Apart (Queue.recordDirectory s.memory.settings) s.host.disk u.host.disk := by
    have hlast := hturns.last.1
    simp only [Session.memory_part, h.recordDirectory] at hlast
    exact hlast
  have hrecords' : u.host.disk.Records (Queue.recordDirectory s.memory.settings)
      s.memory.settings.pageSize items' layout' := by
    rw [Holding, hdirectory, hsize, h.recordDirectory, h.recordSize] at hrecords
    exact hrecords
  refine ⟨?_, hturns.trail.mono hway, (hapart.other hother.symm hup h.kept.payloads.tidy).2⟩
  exact {
    isOpen := h.isOpen
    valid := h.valid
    kept := ⟨hapart.sound, h.kept.ways_apart hapart, hrecords',
      hpayloads.elsewhere hapart hother.symm hup, hwell⟩
    recordDirectory := hdirectory.trans h.recordDirectory
    recordSize := hsize.trans h.recordSize
    payloadDirectory := h.payloadDirectory
    payloadSize := h.payloadSize
    recordReady := hturns.ready
    payloadReady := ⟨hapart.sound,
      hapart.coherent (h.payloadDirectory ▸ hother.symm) h.payloadReady.coherent⟩ }

/-- A turn of the index takes the ledger on, if the payloads follow. -/
theorem Tracks.turn (h : Tracks l layout s) {u : Session MessageIndex}
    (hb : Becomes l.items layout items' layout' (indexOf s) u) (hwell : items'.WellFormed)
    (hpayloads : s.host.disk.Payloads (Queue.payloadDirectory s.memory.settings)
      s.memory.settings.pageSize (items'.map Item.payload) layout')
    (hbehind : ∀ {p : Nat} {bytes : List UInt8} {o : Nat},
      (items'.map Item.payload)[p]? = some bytes →
      InRange (layout' p) bytes.length o → o < l.stop) (hstarted : reachOf u ≠ 0) :
    Goes l.items layout ⟨items', l.stop⟩ layout' s
      ⟨u.host, { s.memory with index := u.memory }⟩ := by
  obtain ⟨hturns, hcarries, hpending⟩ := hb
  obtain ⟨hopened, hpasses, hreach⟩ := h.toOpened.turn hturns hcarries.records hwell hpayloads
  exact ⟨⟨hopened, hcarries, hstarted, h.cursor, hbehind, hreach.trans h.reach⟩, hpasses, rfl,
    fun uuid => congrArg (·.contains uuid) hpending⟩

/-- Something happens to the pages of the payloads, and all of them stay. -/
theorem Opened.aside (h : Opened items layout s) (log : PayloadLog) (host : Host)
    (haccess : Access (fun d => Apart (Queue.payloadDirectory s.memory.settings) s.host.disk d
      ∧ d.Payloads (Queue.payloadDirectory s.memory.settings) s.memory.settings.pageSize
        (items.map Item.payload) layout) (payloadPagesOf s) ⟨host, log.file.store⟩) :
    Opened items layout ⟨host, { s.memory with payloads := log }⟩
      ∧ Passes s.memory.settings items layout items layout s.host host
      ∧ host.disk.reach (Queue.recordDirectory s.memory.settings) s.memory.settings.pageSize
        = s.host.disk.reach (Queue.recordDirectory s.memory.settings)
          s.memory.settings.pageSize := by
  obtain ⟨hother, hup, -⟩ := record_ne_payload s.memory.settings
  obtain ⟨hapart, -⟩ := haccess.last
  have hway (d : Disk) (hd : Apart (Queue.payloadDirectory s.memory.settings) s.host.disk d
      ∧ d.Payloads (Queue.payloadDirectory s.memory.settings) s.memory.settings.pageSize
        (items.map Item.payload) layout) : Kept s.memory.settings items layout d :=
    h.kept.aside hd.1 hd.2
  refine ⟨?_, haccess.trail.mono fun d hd => .inl (hway d hd),
    (hapart.other hother hup h.kept.records.tidy).2⟩
  exact {
    isOpen := h.isOpen
    valid := h.valid
    kept := hway host.disk haccess.last
    recordDirectory := h.recordDirectory
    recordSize := h.recordSize
    payloadDirectory := haccess.same.directory.trans h.payloadDirectory
    payloadSize := haccess.same.pageSize.trans h.payloadSize
    recordReady := ⟨hapart.sound,
      hapart.coherent (h.recordDirectory ▸ hother) h.recordReady.coherent⟩
    payloadReady := haccess.ready }

/-- An open queue whose index is not touched carries what it carried. -/
theorem Opened.carries (h : Opened items layout t) (hs : Carries items layout (indexOf s))
    (hindex : t.memory.index = s.memory.index) : Carries items layout (indexOf t) where
  ready := h.recordReady
  records := by
    show t.host.disk.Records t.memory.index.file.store.directory
      t.memory.index.file.store.pageSize items layout
    rw [h.recordDirectory, h.recordSize]
    exact h.kept.records
  holds := by
    have hholds := hs.holds
    rw [Session.memory_part, ← hindex] at hholds
    exact hholds
  count_eq := (congrArg MessageIndex.count hindex).trans hs.count_eq
  next_eq := (congrArg MessageIndex.next hindex).trans hs.next_eq

/-- What the payload log does aside leaves the ledger. -/
theorem Tracks.aside (h : Tracks l layout s) (log : PayloadLog) (host : Host) {stop : Nat}
    (haccess : Access (fun d => Apart (Queue.payloadDirectory s.memory.settings) s.host.disk d
      ∧ d.Payloads (Queue.payloadDirectory s.memory.settings) s.memory.settings.pageSize
        (l.items.map Item.payload) layout) (payloadPagesOf s) ⟨host, log.file.store⟩)
    (hcursor : log.cursor = stop) (hstop : l.stop ≤ stop)
    (hreach : host.disk.reach (Queue.payloadDirectory s.memory.settings) s.memory.settings.pageSize
      = pageEnd s.memory.settings.pageSize stop) :
    Goes l.items layout { l with stop } layout s ⟨host, { s.memory with payloads := log }⟩ := by
  obtain ⟨hopened, hpasses, hreach'⟩ := h.toOpened.aside log host haccess
  have hstarted : reachOf (indexOf ⟨host, { s.memory with payloads := log }⟩) ≠ 0 := by
    have hbefore := h.started
    rw [h.reachOf_eq] at hbefore
    rw [hopened.reachOf_eq]
    exact hreach' ▸ hbefore
  exact ⟨⟨hopened, hopened.carries h.index rfl, hstarted, hcursor,
    fun hp ho => Nat.lt_of_lt_of_le (h.behind hp ho) hstop, hreach⟩, hpasses, rfl, fun _ => rfl⟩

/-! ## What leaves the messages alone -/

/-- Only the caches changed and the clock was looked at. -/
structure Quiet (s t : Session Queue) : Prop where
  trail : Trail (· = s.host.disk) s.host t.host
  settings : t.memory.settings = s.memory.settings
  isClosed : t.memory.isClosed = s.memory.isClosed
  payloads : t.memory.payloads = { s.memory.payloads with file := t.memory.payloads.file }
  index : t.memory.index = { s.memory.index with file := t.memory.index.file }
  recordSame : PageStore.Same s.memory.index.file.store t.memory.index.file.store
  payloadSame : PageStore.Same s.memory.payloads.file.store t.memory.payloads.file.store
  recordCoherent : t.memory.index.file.store.Coherent s.host.disk
  payloadCoherent : t.memory.payloads.file.store.Coherent s.host.disk

theorem Quiet.disk_eq (h : Quiet s t) : t.host.disk = s.host.disk := h.trail.last

/-- Two quiet steps are one. -/
theorem Quiet.trans (h : Quiet s t) (h' : Quiet t u) : Quiet s u where
  trail := h.trail.trans (h'.trail.mono fun _ hd => hd.trans h.disk_eq)
  settings := h'.settings.trans h.settings
  isClosed := h'.isClosed.trans h.isClosed
  payloads := by rw [h'.payloads, h.payloads]
  index := by rw [h'.index, h.index]
  recordSame := h.recordSame.trans h'.recordSame
  payloadSame := h.payloadSame.trans h'.payloadSame
  recordCoherent := h.disk_eq ▸ h'.recordCoherent
  payloadCoherent := h.disk_eq ▸ h'.payloadCoherent

/-- A quiet step leaves the ledger. -/
theorem Tracks.quiet (h : Tracks l layout s) (hq : Quiet s t) :
    Goes l.items layout l layout s t := by
  have hdisk : t.host.disk = s.host.disk := hq.trail.last
  have hsettings := hq.settings
  have hcursor : t.memory.payloads.cursor = s.memory.payloads.cursor := by rw [hq.payloads]
  have hrecord : t.memory.index.file.store.directory = s.memory.index.file.store.directory :=
    hq.recordSame.directory
  have hrecord' : t.memory.index.file.store.pageSize = s.memory.index.file.store.pageSize :=
    hq.recordSame.pageSize
  have hpayload : t.memory.payloads.file.store.directory = s.memory.payloads.file.store.directory :=
    hq.payloadSame.directory
  have hpayload' : t.memory.payloads.file.store.pageSize = s.memory.payloads.file.store.pageSize :=
    hq.payloadSame.pageSize
  have hentries : t.memory.index.entries = s.memory.index.entries := by rw [hq.index]
  have hlive : t.memory.index.live = s.memory.index.live := by rw [hq.index]
  have hordered : t.memory.index.ordered = s.memory.index.ordered := by rw [hq.index]
  refine ⟨?_, hq.trail.mono fun d hd => .inl (hd ▸ h.kept), hsettings, fun uuid => by rw [hq.index]⟩
  exact {
    isOpen := hq.isClosed.trans h.isOpen
    valid := hsettings ▸ h.valid
    kept := by
      rw [hsettings, hdisk]
      exact h.kept
    recordDirectory := by rw [hrecord, hsettings, h.recordDirectory]
    recordSize := by rw [hrecord', hsettings, h.recordSize]
    payloadDirectory := by rw [hpayload, hsettings, h.payloadDirectory]
    payloadSize := by rw [hpayload', hsettings, h.payloadSize]
    index := {
      ready := ⟨hdisk ▸ h.index.ready.sound, hdisk ▸ hq.recordCoherent⟩
      records := by
        show t.host.disk.Records t.memory.index.file.store.directory
          t.memory.index.file.store.pageSize l.items layout
        rw [hdisk, hrecord, hrecord']
        exact h.index.records
      holds := h.index.holds.congr hentries hlive hordered
      count_eq := (congrArg MessageIndex.count hq.index).trans h.index.count_eq
      next_eq := (congrArg MessageIndex.next hq.index).trans h.index.next_eq }
    recordReady := ⟨hdisk ▸ h.recordReady.sound, hdisk ▸ hq.recordCoherent⟩
    payloadReady := ⟨hdisk ▸ h.payloadReady.sound, hdisk ▸ hq.payloadCoherent⟩
    started := by
      show t.host.disk.reach t.memory.index.file.store.directory
        t.memory.index.file.store.pageSize ≠ 0
      rw [hdisk, hrecord, hrecord']
      exact h.started
    cursor := hcursor.trans h.cursor
    behind := h.behind
    reach := by rw [hdisk, hsettings, h.reach] }

end Queue

end PagedQueue
