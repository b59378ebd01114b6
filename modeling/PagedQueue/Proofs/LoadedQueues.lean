import PagedQueue.Proofs.FoundDirectories
import PagedQueue.Proofs.QueueReloading

/-!
# Queues loaded from anything

Whatever is on disk, a queue that is loaded from it without a fault agrees with what is on disk then
(`Queue.load_agrees`): its records are sound, their pages are there, and in memory it has the first
live record of each UUID. This holds if the records were recovered, and also if there was no page of
them and the queue was started from nothing, for which the pages of both directories are deleted as
far as the names found there lead to files (`PageStore.deleteAll_prunes`).
-/

namespace PagedQueue

open Procedure
open Disk (Apart MadeWay)
open PageStore (Ready Touches Nowhere Same)
open MessageIndex (Holds pagesOf)
open Record (place)

namespace Queue

variable {s t : Session Queue}

/-! ## Opening -/

/-- A queue over two files that knows nothing. -/
def blank (settings : Settings) (records payloads : PagedFile) : Queue :=
  { settings, payloads := { file := payloads }, index := { file := records } }

/-- What is opened without a fault is mounted. All that it knows is how far the pages reach. -/
theorem openFiles_leads {σ : Type} {s : Session σ} {settings : Settings}
    (hsound : s.host.disk.Sound) :
    (openFiles settings : Procedure σ Queue).Leads s
      (fun q t => Mounted ⟨t.host, q⟩
        ∧ ∃ records payloads : PagedFile, q = blank settings records payloads
        ∧ records.length = t.host.disk.reach (Queue.recordDirectory settings) settings.pageSize
        ∧ payloads.length = t.host.disk.reach (Queue.payloadDirectory settings) settings.pageSize)
      fun _ _ => True := by
  unfold openFiles
  simp only [leads_bind]
  cases hvalid : settings.validate with
  | error fault =>
    rw [leads_ofExcept_error]
    trivial
  | ok =>
    have hpos := ((Settings.validate_eq_ok_iff settings).mp hvalid).1
    rw [leads_ofExcept_ok]
    refine (PageStore.makeDirectories_leads _).mono ?_ fun _ _ _ => trivial
    intro _ t₁ ht₁
    refine (PageStore.create_leads _ hpos _).mono ?_ fun _ _ _ => trivial
    intro _ t₂ ht₂
    obtain ⟨rfl, hmade₂, hways₂⟩ := ht₂
    refine (PageStore.create_leads _ hpos _).mono ?_ fun _ _ _ => trivial
    intro _ t₃ ht₃
    obtain ⟨rfl, hmade₃, hways₃⟩ := ht₃
    have hgrounds : t₃.host.disk.Grounds (rootOf settings) :=
      ⟨hmade₃.sound (hmade₂.sound (ht₁.1.sound hsound)),
        fun hp => hp.elim (fun hp => hmade₃.kept (hways₂ _ hp)) (hways₃ _)⟩
    refine (PagedFile.ofStore_ensures hgrounds.records).leads.mono ?_ fun _ _ => False.elim
    intro _ t ht
    obtain ⟨rfl, rfl⟩ := ht
    refine (PagedFile.ofStore_ensures hgrounds.payloads).leads.mono ?_ fun _ _ => False.elim
    intro _ t ht
    obtain ⟨rfl, rfl⟩ := ht
    rw [leads_pure]
    exact ⟨⟨rfl, hvalid, hgrounds, rfl, rfl, rfl, rfl, .of_cached_empty rfl, .of_cached_empty rfl⟩,
      _, _, rfl, rfl, rfl⟩

/-! ## Queues that agree with the disk -/

/-- In memory the queue has what the records on disk say. They are sound, and their pages are
there. -/
structure Agrees (s : Session Queue) : Prop extends Mounted s where
  count_eq : s.memory.index.count = (recordBytes s).covered
  next_eq : s.memory.index.next = (recordBytes s).covered
  holds : Holds s.memory.index ((recordBytes s).liveAt? (recordBytes s).covered)
  nonneg : ¬ (recordBytes s).count < 0
  sense : ∀ p < (recordBytes s).covered, ¬ ((recordBytes s).recordAt p).Faulty
  recordPage : ∀ o < place (recordBytes s).covered, RecordPage s o

/-- A queue whose records were recovered agrees with them. -/
theorem Recovers.agrees (h : Recovers s t) (hstarted : recordReach s ≠ 0) : Agrees t := by
  have hrecords := h.changes.recordBytes_eq
  have hheld : recordsHeld s = (recordBytes t).covered := by
    rw [recordsHeld, ByteSpace.recordCount, if_neg hstarted, hrecords]
  have hsound := h.sound
  have hpages := h.recordPage hstarted
  have hholds := h.holds
  rw [← hrecords] at hsound hholds
  rw [hheld] at hholds hpages
  exact {
    toMounted := h.changes.mounted
    count_eq := h.count_eq.trans hheld
    next_eq := h.next_eq.trans hheld
    holds := hholds
    nonneg := fun hnegative => hsound ⟨hstarted, .inl hnegative⟩
    sense := fun p hp hfaulty => hsound ⟨hstarted, .inr (.inr ⟨p, hp, hfaulty⟩)⟩
    recordPage := hpages }

/-- Whatever keeps the records and their pages lets a queue agree that did before. -/
theorem Agrees.carry (h : Agrees s) (hmounted : Mounted t) (hbytes : recordBytes t = recordBytes s)
    (hpages : ∀ o, RecordPage s o → RecordPage t o)
    (hindex : t.memory.index = { s.memory.index with
      file := t.memory.index.file, pending := t.memory.index.pending }) : Agrees t where
  toMounted := hmounted
  count_eq := by rw [hindex, hbytes]; exact h.count_eq
  next_eq := by rw [hindex, hbytes]; exact h.next_eq
  holds := by
    rw [hbytes]
    exact h.holds.congr (by rw [hindex]) (by rw [hindex]) (by rw [hindex])
  nonneg := hbytes ▸ h.nonneg
  sense := hbytes ▸ h.sense
  recordPage o ho := hpages o (h.recordPage o (hbytes ▸ ho))

theorem Agrees.changed (h : Agrees s) {payloads : Nat → Prop} (hc : Changes Nowhere payloads s t)
    (hindex : t.memory.index = { s.memory.index with
      file := t.memory.index.file, pending := t.memory.index.pending }) : Agrees t :=
  h.carry hc.mounted hc.recordBytes_eq hc.recordPage hindex

/-- A queue that knows nothing agrees with a count of zero. -/
theorem Mounted.agrees_of_zero (h : Mounted s) (hzero : (recordBytes s).count = 0)
    (hpage : ∀ o < Record.countSize, RecordPage s o) (hcount : s.memory.index.count = 0)
    (hnext : s.memory.index.next = 0) (hlive : s.memory.index.live = {})
    (hordered : s.memory.index.ordered = {}) : Agrees s := by
  have hcovered : (recordBytes s).covered = 0 := by
    rw [ByteSpace.covered, hzero]
    rfl
  have hnone : (recordBytes s).liveAt? 0 = fun _ => none :=
    funext fun p => if_neg fun hand => Nat.not_lt_zero p hand.1
  exact {
    toMounted := h
    count_eq := hcount.trans hcovered.symm
    next_eq := hnext.trans hcovered.symm
    holds := by
      rw [hcovered, hnone]
      exact MessageIndex.holds_empty hlive hordered
    nonneg := by
      rw [hzero]
      decide
    sense := fun p hp => absurd (hcovered ▸ hp) (Nat.not_lt_zero p)
    recordPage := fun o ho => hpage o (by rwa [hcovered] at ho) }

/-! ## Starting from nothing -/

/-- Something happens in the directory of the records, and their cache is coherent again. -/
theorem Mounted.apartRecords (h : Mounted s) {host : Host} {m : MessageIndex}
    (ha : Apart (Queue.recordDirectory s.memory.settings) s.host.disk host.disk)
    (hsame : Same s.memory.index.file.store m.file.store)
    (hcoherent : m.file.store.Coherent host.disk) :
    Mounted ⟨host, { s.memory with index := m }⟩ where
  isOpen := h.isOpen
  valid := h.valid
  grounds := ⟨ha.sound, fun hp =>
    (ha.node? _ (hp.elim Disk.Stored.dropLast_ne Disk.Stored.dropLast_ne)).trans
    (h.grounds.ways hp)⟩
  recordDirectory := hsame.directory.trans h.recordDirectory
  recordSize := hsame.pageSize.trans h.recordSize
  payloadDirectory := h.payloadDirectory
  payloadSize := h.payloadSize
  recordCoherent := hcoherent
  payloadCoherent :=
    ha.coherent (h.payloadDirectory ▸ (record_ne_payload _).1.symm) h.payloadCoherent

/-- Something happens in the directory of the payloads, and their cache is coherent again. -/
theorem Mounted.apartPayloads (h : Mounted s) {host : Host} {l : PayloadLog}
    (ha : Apart (Queue.payloadDirectory s.memory.settings) s.host.disk host.disk)
    (hsame : Same s.memory.payloads.file.store l.file.store)
    (hcoherent : l.file.store.Coherent host.disk) :
    Mounted ⟨host, { s.memory with payloads := l }⟩ where
  isOpen := h.isOpen
  valid := h.valid
  grounds := ⟨ha.sound, fun hp =>
    (ha.node? _ (hp.elim Disk.Stored.dropLast_ne Disk.Stored.dropLast_ne)).trans
    (h.grounds.ways hp)⟩
  recordDirectory := h.recordDirectory
  recordSize := h.recordSize
  payloadDirectory := hsame.directory.trans h.payloadDirectory
  payloadSize := hsame.pageSize.trans h.payloadSize
  recordCoherent := ha.coherent (h.recordDirectory ▸ (record_ne_payload _).1) h.recordCoherent
  payloadCoherent := hcoherent

/-- The pages of the payloads are deleted, and the records stay as they are. -/
theorem startPayloads_leads (h : Agrees s) :
    (onPayloads PayloadLog.startEmpty).Leads s
      (fun _ t => Agrees t ∧ t.memory.settings = s.memory.settings) fun _ _ => True := by
  unfold onPayloads PayloadLog.startEmpty PayloadLog.onFile
  simp only [leads_within, leads_bind, leads_update]
  refine (PagedFile.reset_prunes (s := ⟨s.host, s.memory.payloads.file⟩) ?_).leads.mono ?_
    fun _ _ => False.elim
  · rw [h.payloadDirectory]
    exact h.grounds.payloads
  intro _ u hu
  obtain ⟨hsame, hcoherent, gone, hpruned⟩ := hu
  rw [h.payloadDirectory] at hpruned
  have hapart := Apart.of_pruned hpruned h.grounds.sound
  obtain ⟨hother, -, -⟩ := record_ne_payload s.memory.settings
  refine ⟨h.carry (h.apartPayloads (l := ⟨u.memory, 0⟩) hapart hsame hcoherent)
    (hapart.space _ _ hother) (fun o ho => ?_) rfl, trivial⟩
  obtain ⟨id, hid⟩ := ho
  refine ⟨id, (hapart.node? _ ?_).trans hid⟩
  rw [Disk.pagePath, List.dropLast_concat]
  exact hother

/-- The pages of the records are deleted, and the count is made zero. -/
theorem startRecords_leads (h : Mounted s) :
    (onIndex MessageIndex.startEmpty).Leads s
      (fun _ t => Agrees t ∧ t.memory.settings = s.memory.settings) fun _ _ => True := by
  have hzero : encodeInt32 0 ≠ [] := List.ne_nil_of_length_pos (by simp)
  unfold onIndex MessageIndex.startEmpty MessageIndex.onFile PagedFile.writeInt32
  simp only [leads_within, leads_bind, leads_update]
  refine (PagedFile.reset_prunes (s := ⟨s.host, s.memory.index.file⟩) ?_).leads.mono ?_
    fun _ _ => False.elim
  · rw [h.recordDirectory]
    exact h.grounds.records
  intro _ u hu
  obtain ⟨hsame, hcoherent, gone, hpruned⟩ := hu
  rw [h.recordDirectory] at hpruned
  have hapart := Apart.of_pruned hpruned h.grounds.sound
  have hreset :=
    h.apartRecords (m := { s.memory.index with live := {}, ordered := {}, file := u.memory })
    hapart hsame hcoherent
  refine (PagedFile.writeWord_leads (s := u) hreset.recordReady 0 hzero).mono ?_
    fun _ _ _ => trivial
  intro _ v hv
  obtain ⟨hv, -⟩ := hv
  have htouches := hv.touches
  rw [length_encodeInt32] at htouches
  have hrecords := hreset.onRecords (u := ⟨v.host, { s.memory.index with
    live := {}, ordered := {}, file := v.memory, count := 0, next := 0 }⟩) htouches fun o ho =>
      Disk.div_le_maxIndex (Nat.lt_trans ho.2 (by decide))
  have hbytes := hrecords.mounted.contents_records.symm.trans hv.bytesOf_eq
  refine ⟨hrecords.mounted.agrees_of_zero ?_ (fun o ho => ?_) rfl rfl rfl rfl, trivial⟩
  · rw [hbytes, ByteSpace.count_write_count]
  · have hpage := hv.hasPages o ⟨Nat.zero_le o, by rwa [Nat.zero_add, length_encodeInt32]⟩
    rw [hreset.recordDirectory, hreset.recordSize] at hpage
    exact hpage

/-- Started from nothing, a queue agrees with a count of zero. -/
theorem startEmpty_leads (h : Mounted s) :
    startEmpty.Leads s (fun _ t => Agrees t ∧ t.memory.settings = s.memory.settings)
      fun _ _ => True := by
  unfold startEmpty
  simp only [leads_bind]
  rw [leads_ensureOpen h.isOpen]
  refine (startRecords_leads h).mono ?_ fun _ _ _ => trivial
  intro _ t ht
  obtain ⟨ht, hsettings⟩ := ht
  refine (startPayloads_leads ht).mono ?_ fun _ _ _ => trivial
  intro _ u hu
  obtain ⟨hu, hsettings'⟩ := hu
  rw [leads_update]
  exact ⟨hu.changed (hu.quiet (quiet_withChanges hu.recordCoherent hu.payloadCoherent 0)) rfl,
    hsettings'.trans hsettings⟩

/-! ## Loading -/

/-- Whether there are pages of records or not, what is loaded from them agrees with them. -/
theorem recoverOrStart_leads (h : Mounted s) :
    recoverOrStart.Leads s (fun _ t => Agrees t ∧ t.memory.settings = s.memory.settings)
      fun _ _ => True := by
  unfold recoverOrStart
  simp only [leads_bind]
  refine (recordPages_ensures (by rw [h.recordDirectory]; exact h.grounds.records)).leads.mono ?_
    fun _ _ => False.elim
  intro indexes t hand
  obtain ⟨rfl, hempty⟩ := hand
  rw [leads_ite]
  split
  next => exact startEmpty_leads h
  next hsome =>
    have hstarted : recordReach t ≠ 0 := fun hnone => hsome (hempty.mpr (h.reachOf_eq.trans hnone))
    rw [leads_discard]
    exact (recover_leads h).mono (fun _ _ ht => ⟨ht.agrees hstarted, ht.changes.settings⟩)
      fun _ _ _ => trivial

/-- Whatever is on disk, a queue that is loaded from it without a fault agrees with what is there
then. -/
theorem load_agrees {σ : Type} {s : Session σ} (hsound : s.host.disk.Sound) (settings : Settings) :
    (load settings : Procedure σ Queue).Leads s
      (fun q t => Agrees ⟨t.host, q⟩ ∧ q.settings = settings) fun _ _ => True := by
  unfold load
  simp only [leads_bind, leads_pure, leads_launch]
  refine (openFiles_leads hsound).mono ?_ fun _ _ _ => trivial
  intro q t hq
  obtain ⟨hmounted, records, payloads, rfl, -⟩ := hq
  exact recoverOrStart_leads hmounted

end Queue

end PagedQueue
