import PagedQueue.Proofs.QueueCalls

/-!
# Opening a queue

A queue that is opened over directories that hold messages tracks them (`load_ensures`): either
there are record pages and the messages are recovered, or there are none, which can only be if there
is no message, and the queue starts from nothing. Where the directories are missing they are made
(`load_of_fresh`). Closing a queue leaves the disk as it is (`close_ensures`).
-/

namespace PagedQueue

open Procedure
open Disk (Apart Confined Records Payloads MadeWay)
open PageStore (Ready Access Touches Nowhere Turns)
open MessageIndex (Holding Carries pagesOf reachOf)

namespace Queue

variable {items : Items} {l : Ledger} {layout : Nat → Nat} {s t : Session Queue}

/-- How far the pages of the payloads reach. -/
def payloadReach (s : Session Queue) : Nat :=
  s.host.disk.reach (Queue.payloadDirectory s.memory.settings) s.memory.settings.pageSize

/-- The messages that the directories hold are recovered. -/
theorem recover_ensures (h : Opened items layout s) (hstarted : reachOf (indexOf s) ≠ 0) :
    recover.Ensures s fun tally t => tally = items.tally
      ∧ Goes items layout ⟨items, payloadReach s⟩ layout s t := by
  unfold recover onIndex onPayloads PayloadLog.recover PayloadLog.onFile Ensures
  simp only [leads_bind, leads_discard]
  rw [leads_ensureOpen h.isOpen, leads_within]
  refine (MessageIndex.recover_holding (s := indexOf s) h.recordReady h.holding h.kept.wellFormed
    h.count_fits).leads.mono ?_ fun _ _ => False.elim
  intro tally u hu
  obtain ⟨rfl, hturns, hcarries, hpending, hreach⟩ := hu
  obtain ⟨hopened, hpasses, hpayload⟩ := h.turn hturns hcarries.records h.kept.wellFormed
    h.kept.payloads
  have htidy := hopened.kept.payloads.tidy
  have hdirectory := h.payloadDirectory
  have hsize := h.payloadSize
  simp only [leads_within, leads_bind, leads_update, leads_pure]
  -- the next payload goes behind all pages, whatever the records say
  refine (PagedFile.recoverLength_ensures (s := ⟨u.host, s.memory.payloads.file⟩) ?_).leads.mono ?_
    fun _ _ => False.elim
  · rw [hdirectory]
    exact htidy.isDirectory
  · intro length v hv
    obtain ⟨hlength, rfl⟩ := hv
    have hlength' : length = payloadReach s := by
      rw [hlength, hdirectory, hsize]
      exact hpayload
    refine ⟨trivial, ?_, hpasses, rfl, fun uuid => congrArg (·.contains uuid) hpending⟩
    exact {
      isOpen := hopened.isOpen
      valid := hopened.valid
      kept := hopened.kept
      recordDirectory := hopened.recordDirectory
      recordSize := hopened.recordSize
      payloadDirectory := hopened.payloadDirectory
      payloadSize := hopened.payloadSize
      recordReady := hopened.recordReady
      payloadReady := hopened.payloadReady
      index := hcarries
      started := hreach ▸ hstarted
      cursor := hlength'
      behind := fun hp ho => h.kept.payloads.below hp ho
      reach := by
        rw [payloadReach]
        exact hpayload.trans (h.kept.payloads.tidy.pageEnd_reach h.pageSize_pos).symm }

/-- All pages are deleted, first those of the records, and then the records are zeros. -/
theorem startEmpty_blank (h : Opened items layout s) :
    startEmpty.Ensures s fun _ t => Goes items layout ⟨[], 0⟩ layout s t
      ∧ t.host.disk.space (Queue.recordDirectory s.memory.settings) s.memory.settings.pageSize
        = ByteSpace.blank := by
  unfold startEmpty onIndex onPayloads PayloadLog.startEmpty PayloadLog.onFile Ensures
  simp only [leads_bind]
  rw [leads_ensureOpen h.isOpen, leads_within]
  refine (MessageIndex.startEmpty_ensures (s := indexOf s) h.recordReady h.holding
    h.count_fits).leads.mono ?_ fun _ _ => False.elim
  intro _ u hu
  obtain ⟨hturns, hcarries, hpending, hstarted, hblank⟩ := hu
  obtain ⟨hopened, hpasses, -⟩ := h.turn hturns hcarries.records .nil
    (.nil h.kept.payloads.tidy layout)
  have hdirectory := h.payloadDirectory
  have hsize := h.payloadSize
  simp only [leads_within, leads_bind, leads_update]
  refine (PagedFile.reset_ensures (s := ⟨u.host, s.memory.payloads.file⟩) hopened.payloadReady
    ?_).leads.mono ?_ fun _ _ => False.elim
  · rw [hdirectory]
    exact hopened.kept.payloads.tidy
  · intro _ v hv
    obtain ⟨all, -, -, haccess, htidy, hnone⟩ := hv
    rw [hdirectory] at haccess htidy hnone
    -- no message is left, so any payload may go
    have hdeleted : Access (fun d => Apart (Queue.payloadDirectory s.memory.settings) u.host.disk d
        ∧ d.Payloads (Queue.payloadDirectory s.memory.settings) s.memory.settings.pageSize
          [] layout)
        (payloadPagesOf ⟨u.host, { s.memory with index := u.memory }⟩)
          ⟨v.host, v.memory.store⟩ := by
      refine Access.mono haccess ?_
      intro d hd
      obtain ⟨gone, -, hd⟩ := hd
      exact ⟨.of_pruned hd hopened.payloadReady.sound, .nil (hd.tidy hopened.kept.payloads.tidy) _⟩
    obtain ⟨hopened', hpasses', hreach⟩ := hopened.aside ⟨v.memory, 0⟩ v.host hdeleted
    have hreached := htidy.reach_eq_zero hnone s.memory.settings.pageSize
    have hstarted' : reachOf (indexOf ⟨v.host,
        { s.memory with index := u.memory, payloads := ⟨v.memory, 0⟩ }⟩) ≠ 0 := by
      have hbefore : reachOf (indexOf ⟨u.host, { s.memory with index := u.memory }⟩) ≠ 0 := hstarted
      rw [hopened.reachOf_eq] at hbefore
      rw [hopened'.reachOf_eq]
      exact hreach ▸ hbefore
    have hpageEnd : pageEnd s.memory.settings.pageSize 0 = 0 := by
      have hmul := Disk.pageEnd_mul h.pageSize_pos 0
      rwa [Nat.zero_mul] at hmul
    have htracks : Tracks ⟨[], 0⟩ layout
        ⟨v.host, { s.memory with index := u.memory, payloads := ⟨v.memory, 0⟩ }⟩ :=
      ⟨hopened', hopened'.carries (s := ⟨u.host, { s.memory with index := u.memory }⟩) hcarries rfl,
        hstarted', rfl, fun hp => absurd hp (by simp), hreached.trans hpageEnd.symm⟩
    refine ⟨⟨(htracks.withChanges 0).tracks, ?_, rfl,
      fun uuid => congrArg (·.contains uuid) hpending⟩, ?_⟩
    · exact hpasses.trans (hpasses'.mono fun _ hd => .inr (hd.elim id id))
    · -- the payloads lie in another directory
      obtain ⟨hother, -, -⟩ := record_ne_payload s.memory.settings
      rw [hdeleted.last.1.space _ _ hother]
      rw [MessageIndex.bytesOf, PagedFile.bytesOf, PageStore.contents, hturns.same.directory,
        hturns.same.pageSize] at hblank
      simp only [Session.memory_part, h.recordDirectory, h.recordSize] at hblank
      exact hblank

theorem startEmpty_ensures (h : Opened items layout s) :
    startEmpty.Ensures s fun _ t => Goes items layout ⟨[], 0⟩ layout s t :=
  (startEmpty_blank h).mono fun _ _ ht => ht.1

/-! ## Opening and closing -/

/-- The queue once it is closed: its pages are, and what it knows besides stays. -/
def shut (q : Queue) : Queue :=
  if q.isClosed then q
  else { q with
    isClosed := true
    payloads.file.store := q.payloads.file.store.flush.dropAll
    index.file.store := q.index.file.store.flush.dropAll }

@[simp]
theorem settings_shut (q : Queue) : q.shut.settings = q.settings := by
  unfold shut
  split <;> rfl

/-- A queue that is closed leaves the disk as it is. -/
theorem close_ensures (s : Session Queue) :
    close.Ensures s fun _ t => t = ⟨s.host, s.memory.shut⟩ := by
  unfold close onPayloads onIndex PayloadLog.close MessageIndex.close PayloadLog.onFile
    MessageIndex.onFile PagedFile.close PagedFile.flush shut Ensures
  simp only [leads_bind, leads_memory, leads_ite, leads_update, leads_within, leads_pure]
  split
  next => rfl
  next => rfl

/-- What is opened over the directories of a queue, whatever they hold. -/
theorem openFiles_of_grounds {σ : Type} {s : Session σ} {settings : Settings}
    (hvalid : settings.validate = .ok ()) (h : s.host.disk.Grounds (rootOf settings)) :
    (openFiles settings : Procedure σ Queue).Ensures s fun q t => t = s
      ∧ Mounted ⟨s.host, q⟩ ∧ q.settings = settings ∧ q.index.pending = {} := by
  have hpos := ((Settings.validate_eq_ok_iff settings).mp hvalid).1
  have hroot (p : Path) (hp : p <+: Path.ofString settings.directory) :
      s.host.disk.node? p = some .directory := h.ways (.inl (hp.trans (List.prefix_append ..)))
  unfold openFiles Ensures
  simp only [leads_bind, hvalid, leads_ofExcept_ok]
  refine (PageStore.makeDirectories_of_directories hroot).leads.mono (fun _ t ht => ?_)
    fun _ _ => False.elim
  subst ht
  refine (PageStore.create_of_directories hpos settings.lifetime fun p hp =>
    h.ways (.inl hp)).leads.mono ?_ fun _ _ => False.elim
  intro _ t ht
  obtain ⟨rfl, rfl⟩ := ht
  refine (PageStore.create_of_directories hpos settings.lifetime fun p hp =>
    h.ways (.inr hp)).leads.mono ?_ fun _ _ => False.elim
  intro _ t ht
  obtain ⟨rfl, rfl⟩ := ht
  refine (PagedFile.ofStore_ensures h.records).leads.mono ?_ fun _ _ => False.elim
  intro _ t ht
  obtain ⟨rfl, rfl⟩ := ht
  refine (PagedFile.ofStore_ensures h.payloads).leads.mono ?_ fun _ _ => False.elim
  intro _ t ht
  obtain ⟨rfl, rfl⟩ := ht
  rw [leads_pure]
  exact ⟨rfl, ⟨rfl, hvalid, h, rfl, rfl, rfl, rfl, .of_cached_empty rfl, .of_cached_empty rfl⟩,
    rfl, rfl⟩

/-- What is opened over directories that hold messages. -/
theorem openFiles_ensures {σ : Type} {s : Session σ} {settings : Settings}
    (hvalid : settings.validate = .ok ()) (h : Kept settings items layout s.host.disk) :
    (openFiles settings : Procedure σ Queue).Ensures s fun q t => t = s
      ∧ Opened items layout ⟨s.host, q⟩ ∧ q.settings = settings ∧ q.index.pending = {} := by
  refine (openFiles_of_grounds hvalid h.grounds).mono ?_
  intro q t ht
  obtain ⟨rfl, hmounted, rfl, hpending⟩ := ht
  exact ⟨rfl, hmounted.opened h, rfl, hpending⟩

/-- Where nothing is, the directories are made and hold no message. -/
theorem openFiles_of_fresh {σ : Type} {s : Session σ} {settings : Settings}
    (hvalid : settings.validate = .ok ()) (hfresh : s.host.disk.Fresh (rootOf settings))
    (layout : Nat → Nat) :
    (openFiles settings : Procedure σ Queue).Ensures s fun q t => t.memory = s.memory
      ∧ Opened [] layout ⟨t.host, q⟩ ∧ q.settings = settings ∧ q.index.pending = {}
      ∧ reachOf (indexOf ⟨t.host, q⟩) = 0 := by
  have hpos := ((Settings.validate_eq_ok_iff settings).mp hvalid).1
  unfold openFiles Ensures
  simp only [leads_bind, hvalid, leads_ofExcept_ok]
  refine (PageStore.makeDirectories_ensures hfresh.passable).leads.mono ?_ fun _ _ => False.elim
  intro _ t₁ hand
  obtain ⟨hmemory₁, htrail₁, -⟩ := hand
  have hfresh₁ : t₁.host.disk.Fresh (rootOf settings) :=
    hfresh.madeWay htrail₁.last fun p hp hne hle => hne (hle.eq_of_length_le hp.length_le)
  -- each directory is made where nothing is, and beside the ones before
  have hfreshMeta := hfresh₁.child "meta"
  refine (PageStore.create_ensures hpos settings.lifetime hfreshMeta.passable).leads.mono ?_
    fun _ _ => False.elim
  intro _ t₂ hand
  obtain ⟨rfl, hmemory₂, htrail₂, hways₂⟩ := hand
  have hfreshData : t₂.host.disk.Fresh (rootOf settings ++ ["data"]) := by
    refine (hfresh₁.child "data").madeWay htrail₂.last fun p hp _ hle => ?_
    have heq := (hp.trans hle).eq_of_length_le (by simp)
    exact Disk.Stored.meta_ne_data heq.symm
  obtain ⟨htidyMeta, hnoneMeta⟩ := htrail₂.last.tidy hfreshMeta (hways₂ _ List.prefix_rfl)
  refine (PageStore.create_ensures hpos settings.lifetime hfreshData.passable).leads.mono ?_
    fun _ _ => False.elim
  intro _ t₃ hand
  obtain ⟨rfl, hmemory₃, htrail₃, hways₃⟩ := hand
  have hmade := htrail₃.last
  obtain ⟨htidyData, hnoneData⟩ := hmade.tidy hfreshData (hways₃ _ List.prefix_rfl)
  have htidyMeta' := hmade.tidy_beside htidyMeta fun name hle => by
    have hlength := hle.length_le
    simp only [List.length_append, List.length_singleton] at hlength
    omega
  have hnoneMeta' (index : Nat) : ¬ t₃.host.disk.HasPage (rootOf settings ++ ["meta"]) index :=
    fun hpage => hnoneMeta index ((hmade.hasPage_iff _ _).mp hpage)
  have hkept : Kept settings [] layout t₃.host.disk :=
    .nil (hmade.sound hfreshData.sound)
      (fun hp => hp.elim (fun hp => hmade.kept (hways₂ _ hp)) (hways₃ _))
      htidyMeta' htidyData hnoneMeta' layout
  refine (PagedFile.ofStore_ensures htidyMeta'.isDirectory).leads.mono ?_ fun _ _ => False.elim
  intro _ t ht
  obtain ⟨rfl, rfl⟩ := ht
  refine (PagedFile.ofStore_ensures htidyData.isDirectory).leads.mono ?_ fun _ _ => False.elim
  intro _ t ht
  obtain ⟨rfl, rfl⟩ := ht
  rw [leads_pure]
  refine ⟨hmemory₃.trans (hmemory₂.trans hmemory₁),
    ⟨rfl, hvalid, hkept, rfl, rfl, rfl, rfl, ⟨hkept.sound, .of_cached_empty rfl⟩,
      ⟨hkept.sound, .of_cached_empty rfl⟩⟩, rfl, rfl, ?_⟩
  exact htidyMeta'.reach_eq_zero hnoneMeta' settings.pageSize

/-! ## Loading -/

/-- The pages of the records tell whether there is anything to recover. -/
theorem recordPages_ensures
    (hdirectory : s.host.disk.node? s.memory.index.file.store.directory = some .directory) :
    (onRecordPages PageStore.pageIndexes).Ensures s fun indexes t => t = s
      ∧ (indexes.isEmpty = true ↔ reachOf (indexOf s) = 0) := by
  unfold onRecordPages onIndex MessageIndex.onFile PagedFile.onStore Ensures
  simp only [leads_within]
  refine (PageStore.pageIndexes_ensures (s := pagesOf (indexOf s)) hdirectory).leads.mono ?_
    fun _ _ => False.elim
  intro indexes _ hand
  obtain ⟨rfl, hindexes⟩ := hand
  refine ⟨rfl, ?_⟩
  rw [Std.TreeSet.isEmpty_iff_forall_not_mem, reachOf,
    Disk.reach_eq_zero_iff (indexOf s).memory.file.store.pageSize_pos,
    List.eq_nil_iff_forall_not_mem]
  exact forall_congr' fun index => not_congr (hindexes index)

theorem Opened.recordTidy (h : Opened items layout s) :
    s.host.disk.Tidy s.memory.index.file.store.directory := by
  rw [h.recordDirectory]
  exact h.kept.records.tidy

/-- Where the records have no page there is no message. -/
theorem Opened.items_eq_nil (h : Opened items layout s) (hnone : reachOf (indexOf s) = 0) :
    items = [] := by
  by_contra hne
  have hfits := h.kept.records.fits hne
  have hplace : 4 ≤ Record.place items.length := Nat.le_add_right ..
  have hzero : s.host.disk.reach (rootOf s.memory.settings ++ ["meta"]) s.memory.settings.pageSize
      = 0 := h.reachOf_eq.symm.trans hnone
  omega

/-- Whether the records have a page decides whether the queue goes on with what there is or starts
from nothing; in both cases it tracks the messages that the directories held. -/
theorem recoverOrStart_ensures (h : Opened items layout s) :
    recoverOrStart.Ensures s fun _ t =>
      Goes items layout
        ⟨items, if reachOf (indexOf s) = 0 then 0 else payloadReach s⟩ layout s t := by
  unfold recoverOrStart Ensures
  simp only [leads_bind]
  refine (recordPages_ensures h.recordTidy.isDirectory).leads.mono ?_ fun _ _ => False.elim
  intro indexes _ hand
  obtain ⟨rfl, hempty⟩ := hand
  rw [leads_ite]
  split
  next hnone =>
    obtain rfl := h.items_eq_nil (hempty.mp hnone)
    rw [if_pos (hempty.mp hnone)]
    exact startEmpty_ensures h
  next hsome =>
    have hstarted := mt hempty.mpr hsome
    rw [if_neg hstarted, leads_discard]
    exact (recover_ensures h hstarted).mono fun _ _ ht => ht.2

/-- A queue that is loaded over directories that hold messages tracks them. -/
theorem load_ensures {σ : Type} {s : Session σ} {settings : Settings}
    (hvalid : settings.validate = .ok ()) (h : Kept settings items layout s.host.disk) :
    (load settings : Procedure σ Queue).Ensures s fun q t => t.memory = s.memory
      ∧ q.settings = settings
      ∧ Tracks ⟨items, if s.host.disk.reach (Queue.recordDirectory settings) settings.pageSize = 0
          then 0 else s.host.disk.reach (Queue.payloadDirectory settings) settings.pageSize⟩
          layout ⟨t.host, q⟩
      ∧ (∀ uuid, q.index.pending.contains uuid = false)
      ∧ Trail (Kept settings items layout) s.host t.host := by
  unfold load Ensures
  simp only [leads_bind, leads_pure, leads_launch]
  refine (openFiles_ensures hvalid h).leads.mono ?_ fun _ _ => False.elim
  intro q _ hq
  obtain ⟨rfl, hopened, rfl, hpending⟩ := hq
  refine (recoverOrStart_ensures hopened).leads.mono ?_ fun _ _ => False.elim
  intro _ t ht
  have htracks := ht.tracks
  rw [hopened.reachOf_eq] at htracks
  refine ⟨rfl, ht.settings, htracks, fun uuid => ?_, ht.passes.mono fun _ hd => hd.elim id id⟩
  rw [ht.pending]
  exact (congrArg (·.contains uuid) hpending).trans Std.TreeSet.contains_emptyc

/-- A queue that is loaded where nothing is is empty, and its records are zeros. -/
theorem load_blank {σ : Type} {s : Session σ} {settings : Settings}
    (hvalid : settings.validate = .ok ()) (hfresh : s.host.disk.Fresh (rootOf settings))
    (layout : Nat → Nat) :
    (load settings : Procedure σ Queue).Ensures s fun q t => (t.memory = s.memory
      ∧ q.settings = settings ∧ Tracks {} layout ⟨t.host, q⟩
      ∧ ∀ uuid, q.index.pending.contains uuid = false)
      ∧ t.host.disk.space (Queue.recordDirectory settings) settings.pageSize = ByteSpace.blank := by
  unfold load Ensures
  simp only [leads_bind, leads_pure, leads_launch]
  refine (openFiles_of_fresh hvalid hfresh layout).leads.mono ?_ fun _ _ => False.elim
  intro q u hu
  obtain ⟨hmemory, hopened, rfl, hpending, hnone⟩ := hu
  unfold recoverOrStart
  simp only [leads_bind]
  refine (recordPages_ensures hopened.recordTidy.isDirectory).leads.mono ?_ fun _ _ => False.elim
  intro indexes _ hand
  obtain ⟨rfl, hempty⟩ := hand
  rw [leads_ite, if_pos (hempty.mpr hnone)]
  refine (startEmpty_blank hopened).leads.mono ?_ fun _ _ => False.elim
  intro _ t ht
  obtain ⟨ht, hblank⟩ := ht
  refine ⟨⟨hmemory, ht.settings, ht.tracks, fun uuid => ?_⟩, hblank⟩
  rw [ht.pending]
  exact (congrArg (·.contains uuid) hpending).trans Std.TreeSet.contains_emptyc

theorem load_of_fresh {σ : Type} {s : Session σ} {settings : Settings}
    (hvalid : settings.validate = .ok ()) (hfresh : s.host.disk.Fresh (rootOf settings))
    (layout : Nat → Nat) :
    (load settings : Procedure σ Queue).Ensures s fun q t => t.memory = s.memory
      ∧ q.settings = settings ∧ Tracks {} layout ⟨t.host, q⟩
      ∧ ∀ uuid, q.index.pending.contains uuid = false :=
  (load_blank hvalid hfresh layout).mono fun _ _ ht => ht.1

end Queue

end PagedQueue
