import PagedQueue.Proofs.CrashAtomicity

/-!
# Loading whatever is there

A queue is loaded from directories of which nothing is asked but that the pages of the records can
be opened and that what they say is sound (`load_leads`). Its messages are then the first live
records of each UUID, and reading all of them tells what those records and the payloads say
(`contents_of_holds`).
-/

namespace PagedQueue

open Procedure
open PageStore (Nowhere)
open MessageIndex (Holds Unreadable Wanted reachOf)

namespace Queue

variable {s t : Session Queue} {held : Nat → Option Entry} {e : Entry} {id : EntryId} {n : Nat}

/-! ## Loading -/

/-- A page of the records that cannot be mapped is not as it should be. -/
theorem Mounted.not_clear_of_unreadable (h : Mounted s) {wanted : Nat → Prop}
    (hunreadable : Unreadable wanted (indexOf s)) :
    ¬ s.host.disk.Clear (rootOf s.memory.settings) := by
  intro hclear
  refine hunreadable.not_openable ?_
  have hdirectory : (indexOf s).memory.file.store.directory = _ := h.recordDirectory
  show s.host.disk.Openable _
  rw [hdirectory]
  exact hclear.records.toOpenable

/-- How far the pages of the records reach. -/
def recordReach (s : Session Queue) : Nat :=
  s.host.disk.reach (Queue.recordDirectory s.memory.settings) s.memory.settings.pageSize

/-- A page that is there is reached. -/
theorem Mounted.lt_recordReach (h : Mounted s) {o : Nat} (hpage : RecordPage s o)
    (ho : o < 0x10000000000000000) : o < recordReach s := by
  have hmem := hpage.mem_pageNumbers h.grounds.records (Disk.div_le_maxIndex ho)
  have hdiv := Nat.lt_mul_div_succ o h.pageSize_pos
  rw [Nat.mul_comm] at hdiv
  exact Nat.lt_of_lt_of_le hdiv (Disk.le_reach_of_mem hmem _)

/-- How many records the count on disk covers, if there are pages at all. -/
def recordsHeld (s : Session Queue) : Nat := (recordBytes s).recordCount (recordReach s)

/-- What a recovery that succeeds leaves of a queue: it carries the first live record of each
UUID. -/
structure Recovers (s t : Session Queue) : Prop where
  changes : Changes Nowhere Nowhere s t
  sound : ¬ (recordBytes s).Unsound (recordReach s)
  holds : Holds t.memory.index ((recordBytes s).liveAt? (recordsHeld s))
  count_eq : t.memory.index.count = recordsHeld s
  next_eq : t.memory.index.next = recordsHeld s
  pending_eq : t.memory.index.pending = s.memory.index.pending
  recordPage : recordReach s ≠ 0 → ∀ o < Record.place (recordsHeld s), RecordPage t o
  cursor_eq : t.memory.payloads.cursor = payloadReach t

/-- Recovery fails only if the records are unsound, or a page of them cannot be mapped. -/
theorem recover_leads (h : Mounted s) :
    recover.Leads s (fun _ t => Recovers s t) fun _ _ =>
      (recordBytes s).Unsound (recordReach s)
        ∨ Unreadable (Wanted (indexOf s) (recordsHeld s)) (indexOf s) := by
  have hbytes : MessageIndex.bytesOf (indexOf s) = recordBytes s := h.contents_records
  have hreach : reachOf (indexOf s) = recordReach s := h.reachOf_eq
  have hleads := MessageIndex.recover_leads_of_ready (s := indexOf s) h.recordReady
    (by rw [Session.memory_part, h.recordDirectory]; exact h.grounds.records)
  rw [hbytes, hreach] at hleads
  unfold recover Queue.onIndex Queue.onPayloads PayloadLog.recover PayloadLog.onFile
  simp only [leads_bind, leads_discard]
  rw [leads_ensureOpen h.isOpen, leads_within]
  refine hleads.mono ?_ fun _ _ => id
  intro _ u hand
  obtain ⟨hsound, hu, hpages⟩ := hand
  have hread := h.onRecords hu.touches fun o ho =>
    Disk.div_le_maxIndex_of_lt_reach h.pageSize_pos (h.reachOf_eq ▸ ho)
  have hholds := hu.holds
  have hcount := hu.count_eq
  have hnext := hu.next_eq
  rw [hbytes, hreach] at hholds hcount hnext
  simp only [leads_within, leads_bind, leads_update, leads_pure]
  refine (PagedFile.recoverLength_ensures (s := ⟨u.host, s.memory.payloads.file⟩) ?_).leads.mono ?_
    fun _ _ => False.elim
  · rw [h.payloadDirectory]
    exact hread.mounted.grounds.payloads
  · intro _ v hv
    obtain ⟨rfl, rfl⟩ := hv
    exact {
      changes := hread.trans (hread.mounted.withPayloads rfl)
      sound := hsound
      holds := hholds
      count_eq := hcount
      next_eq := hnext
      pending_eq := hu.pending
      recordPage := fun hstarted o ho => by
        have hpage := hpages o ⟨hreach.symm ▸ hstarted, ho⟩
        have hdirectory := hread.mounted.recordDirectory
        have hsize := hread.mounted.recordSize
        simp only at hdirectory hsize
        rw [hdirectory, hsize] at hpage
        exact hpage
      cursor_eq := by rw [h.payloadDirectory, h.payloadSize]; rfl }

/-- What is loaded from directories whose records have a page. -/
theorem load_leads {σ : Type} {s : Session σ} {settings : Settings}
    (hvalid : settings.validate = .ok ()) (h : s.host.disk.Grounds (rootOf settings))
    (hstarted : s.host.disk.reach (Queue.recordDirectory settings) settings.pageSize ≠ 0) :
    (load settings : Procedure σ Queue).Leads s
      (fun q t => ∃ opened : Session Queue, opened.host = s.host ∧ opened.memory.settings = settings
        ∧ opened.memory.index.pending = {} ∧ Recovers opened ⟨t.host, q⟩)
      fun _ _ => ∃ opened : Session Queue, opened.host = s.host ∧ opened.memory.settings = settings
        ∧ Mounted opened ∧ ((recordBytes opened).Unsound (recordReach opened)
          ∨ Unreadable (Wanted (indexOf opened) (recordsHeld opened)) (indexOf opened)) := by
  unfold load
  simp only [leads_bind, leads_pure, leads_launch]
  refine (openFiles_of_grounds hvalid h).leads.mono ?_ fun _ _ => False.elim
  intro q _ hq
  obtain ⟨rfl, hmounted, rfl, hpending⟩ := hq
  have hdirectory : q.index.file.store.directory = Queue.recordDirectory q.settings :=
    hmounted.recordDirectory
  unfold recoverOrStart
  simp only [leads_bind]
  refine (recordPages_ensures (by rw [hdirectory]; exact h.records)).leads.mono ?_
    fun _ _ => False.elim
  intro indexes _ hand
  obtain ⟨rfl, hempty⟩ := hand
  rw [leads_ite, if_neg fun hnone => hstarted (hmounted.reachOf_eq.symm.trans (hempty.mp hnone)),
    leads_discard]
  exact (recover_leads hmounted).mono (fun _ _ ht => ⟨_, rfl, rfl, hpending, ht⟩)
    fun _ _ hfailed => ⟨_, rfl, rfl, hmounted, hfailed⟩

/-! ## Reading everything -/

/-- The message that an entry stands for. -/
def messageOf (s : Session Queue) (e : Entry) : Message :=
  ⟨e.uuid, e.kind, (payloadBytes s).read e.offset.toNat e.length.toNat⟩

/-- A message is read where its entry says, unless a page there cannot be mapped. -/
theorem readMessage_leads (h : Mounted s) (id : EntryId)
    (hbelow : (s.memory.index.entry id).offset.toNat + (s.memory.index.entry id).length.toNat
      ≤ 0x10000000000000000) :
    (readMessage id).Leads s
      (fun m t => m = messageOf s (s.memory.index.entry id)
        ∧ Changes Nowhere Nowhere s t ∧ t.memory.index = s.memory.index
        ∧ t.memory.payloads.cursor = s.memory.payloads.cursor)
      fun _ t => (Changes Nowhere Nowhere s t ∧ t.memory.index = s.memory.index
          ∧ t.memory.payloads.cursor = s.memory.payloads.cursor)
        ∧ ∃ o, InRange (s.memory.index.entry id).offset.toNat
            (s.memory.index.entry id).length.toNat o
          ∧ ¬ s.host.disk.Mappable (Queue.payloadDirectory s.memory.settings)
            (o / s.memory.settings.pageSize) := by
  unfold readMessage Queue.onPayloads PayloadLog.read PayloadLog.onFile
  simp only [leads_bind, leads_memory, leads_within, leads_pure]
  have hreached (o : Nat) (ho : InRange (s.memory.index.entry id).offset.toNat
      (s.memory.index.entry id).length.toNat o) :
      o / s.memory.settings.pageSize ≤ PageName.maxIndex :=
    Disk.div_le_maxIndex (Nat.lt_of_lt_of_le ho.2 hbelow)
  refine (PagedFile.readBytes_leads (s := ⟨s.host, s.memory.payloads.file⟩) h.payloadReady _ _).mono
    ?_ ?_
  · intro _ u hu
    obtain ⟨hu, rfl⟩ := hu
    have hbytes : PagedFile.bytesOf ⟨s.host, s.memory.payloads.file⟩ = payloadBytes s :=
      h.contents_payloads
    refine ⟨?_, h.onPayloads hu.touches hreached, trivial, rfl⟩
    rw [hbytes]
    rfl
  · intro _ _ hfailed
    obtain ⟨htouches, ⟨o, ho, hunmappable, -⟩, -⟩ := hfailed
    refine ⟨⟨h.onPayloads htouches hreached, trivial, rfl⟩, o, ho, ?_⟩
    rwa [Session.memory_part, h.payloadDirectory, h.payloadSize] at hunmappable

/-- The payload of an entry lies where numbers reach, and every page of it is there and none is
refused, or no page is in the way of any. -/
structure Readable (s : Session Queue) (e : Entry) : Prop where
  below : e.offset.toNat + e.length.toNat ≤ 0x10000000000000000
  pages : s.host.disk.Clear (rootOf s.memory.settings)
    ∨ s.host.disk.refused = [] ∧ ∀ o, InRange e.offset.toNat e.length.toNat o → PayloadPage s o

theorem Readable.changes {records payloads : Nat → Prop} (h : Readable s e)
    (hc : Changes records payloads s t) : Readable t e where
  below := h.below
  pages := h.pages.imp (fun hclear => hc.settings ▸ hc.clear hclear)
    fun ⟨hcalm, hpages⟩ => ⟨hc.refused.trans hcalm, fun o ho => hc.payloadPage o (hpages o ho)⟩

/-- A message that can be read is read. -/
theorem readMessage_of_mounted (h : Mounted s) (id : EntryId)
    (hreadable : Readable s (s.memory.index.entry id)) :
    (readMessage id).Ensures s fun m t => m = messageOf s (s.memory.index.entry id)
      ∧ Changes Nowhere Nowhere s t ∧ t.memory.index = s.memory.index
      ∧ t.memory.payloads.cursor = s.memory.payloads.cursor := by
  refine (readMessage_leads h id hreadable.below).ensures fun _ _ hfailed => ?_
  obtain ⟨-, o, ho, hunmappable⟩ := hfailed
  rcases hreadable.pages with hclear | ⟨hcalm, hpages⟩
  · exact hunmappable (hclear.payloads.toOpenable.mappable _)
  · exact hunmappable ⟨by simp [hcalm], .inl (hpages o ho)⟩

/-- All messages are read, each as its entry and the payloads say. -/
theorem contents_of_holds (h : Mounted s) (hholds : Holds s.memory.index held)
    (hbound : ∀ {p e}, held p = some e → p < n) (hreadable : ∀ {p e}, held p = some e →
      Readable s e) :
    contents.Ensures s fun found _ => found = (List.range n).filterMap fun p =>
      (held p).map fun e => (messageOf s e, e.status) := by
  have hread (positions : List Nat) {t : Session Queue} (ht : Changes Nowhere Nowhere s t)
      (hindex : t.memory.index = s.memory.index) :
      ((positions.filterMap fun p => s.memory.index.ordered[p]?).mapM readStatus).Ensures t
        fun found _ => found = positions.filterMap fun p =>
          (held p).map fun e => (messageOf s e, e.status) := by
    induction positions generalizing t with
    | nil => exact rfl
    | cons p rest ih =>
      have hheld := hholds.ordered_eq p
      cases hid : s.memory.index.ordered[p]? with
      | none =>
        rw [hid] at hheld
        rw [List.filterMap_cons_none hid, List.filterMap_cons_none (by rw [← hheld]; rfl)]
        exact ih ht hindex
      | some id =>
        rw [hid] at hheld
        have hsome : held p = some (s.memory.index.entry id) := hheld.symm
        have hmessage : messageOf t (s.memory.index.entry id) = messageOf s
            (s.memory.index.entry id) := by
          rw [messageOf, ht.payloadBytes_eq, messageOf]
        rw [List.filterMap_cons_some hid, List.filterMap_cons_some (by rw [hsome]; rfl)]
        unfold Ensures readStatus
        simp only [List.mapM_cons, leads_bind, leads_pure, leads_memory]
        refine (readMessage_of_mounted ht.mounted id ?_).leads.mono ?_ fun _ _ => False.elim
        · rw [hindex]
          exact (hreadable hsome).changes ht
        · intro _ u hu
          obtain ⟨rfl, hu, hindex', -⟩ := hu
          refine (ih (ht.trans hu) (hindex'.trans hindex)).mono ?_
          intro found _ heq
          subst heq
          rw [hindex', hindex, hmessage]
  unfold contents Ensures
  rw [leads_bind, leads_memory, hholds.values_eq hbound]
  exact hread _ h.refl rfl

end Queue

end PagedQueue
