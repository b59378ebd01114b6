import PagedQueue.Proofs.Keeping
import PagedQueue.Proofs.LoadedQueues
import PagedQueue.Proofs.PairedQueues
import PagedQueue.Proofs.ReadOnlyRecovery

/-!
# Opening queues that cannot be told apart

If two disks hold the same in the directories of a queue, the same is read off them when it is
opened (`Queue.load_agree`). Where that fails, the disk was only filled up, so whoever had the queue
open before goes on as if nothing had been tried. Hence two paired queues come to the same answers
whatever is done with them, closing and opening anew included (`QueueStep.twins_run`,
`QueueStep.answers_eq`).
-/

namespace PagedQueue

open Procedure

/-! ## Disks that are filled up -/

/-- Caches that are coherent with one disk are so with another. -/
def Disk.Preserves (d d' : Disk) : Prop :=
  ∀ {store : PageStore}, store.Coherent d → store.Coherent d'

theorem Disk.Filled.sizeOf_le {d d' : Disk} {size : Nat} {made created : Path → Prop}
    (h : d.Filled size made created d') (id : FileId) : d.sizeOf (.file id) ≤ d'.sizeOf
      (.file id) := by
  simp only [sizeOf]
  cases hf : d.file? id with
  | none => exact Nat.zero_le _
  | some f =>
    obtain ⟨f', hf', hbytes⟩ := h.files hf
    rw [hf', Option.map_some, Option.map_some, Option.getD_some, Option.getD_some, File.size,
      File.size]
    rcases hbytes with heq | heq <;> rw [heq]
    exact Nat.le_trans (Nat.le_max_left ..)
      (Nat.le_of_eq (File.size_extend ⟨f.bytes, 0⟩ size 0).symm)

/-- Where the disk is only filled up, every page shows its file still. -/
theorem Disk.Filled.preserves {d d' : Disk} {size : Nat} {made created : Path → Prop}
    (h : d.Filled size made created d') : d.Preserves d' := fun hcoherent =>
  ⟨hcoherent.lt_size, fun hid =>
    have hshows := hcoherent.shows hid
    ⟨hshows.base, hshows.size, hshows.isOpen, h.kept hshows.node,
      Nat.le_trans hshows.sizeOf_le (h.sizeOf_le _)⟩⟩

namespace Queue

variable {k : Nat} {s t u v : Session Queue} {settings : Settings} {d e : Disk}

/-- Where there is a page of records, a recovery loses nothing on disk. -/
theorem recoverOrStart_preserves (h : Mounted s)
    (hlength : s.memory.index.file.length = recordReach s) :
    recoverOrStart.Leads s (fun _ _ => True) fun _ u =>
      recordReach s ≠ 0 → s.host.disk.Preserves u.host.disk := by
  obtain ⟨hpos, hdvd, -⟩ := (Settings.validate_eq_ok_iff _).mp h.valid
  have hdirectory : s.host.disk.node? s.memory.index.file.store.directory = some .directory := by
    rw [h.recordDirectory]
    exact h.grounds.records
  rw [recordReach, Disk.reach] at hlength ⊢
  cases hlast : (s.host.disk.pageNumbers (recordDirectory s.memory.settings)).max? with
  | none => exact (leads_answer _ _).mono (fun _ _ _ => trivial) fun _ _ _ hne => absurd rfl hne
  | some last =>
    rw [hlast, ← h.recordSize] at hlength
    rw [← h.recordDirectory] at hlast
    obtain ⟨hmem, hle⟩ := List.max?_eq_some_iff.mp hlast
    have hreads : MessageIndex.OnlyReads s.host.disk (fun _ => False) last s.memory.index.file.store
        (indexOf s) := ⟨⟨.refl _, .refl _⟩, Nat.le_of_eq hlength⟩
    refine (recoverOrStart_reads hreads ?_ hdirectory (fun _ => id) hmem hle).mono
      (fun _ _ _ => trivial) fun _ _ hu _ => hu.filledUp.filled.preserves
    rw [h.recordSize]
    omega

/-- Neither a recovery nor a start from nothing changes the settings. -/
theorem recoverOrStart_settings (settings : Settings) :
    Keeps (fun q => q.settings = settings) recoverOrStart := by
  have hindex {α : Type} (p : Procedure MessageIndex α) :
      Keeps (fun q : Queue => q.settings = settings) (onIndex p) :=
    .within fun _ hq => ⟨_, keeps_true p, trivial, fun _ _ => hq⟩
  have hpayloads {α : Type} (p : Procedure PayloadLog α) :
      Keeps (fun q : Queue => q.settings = settings) (onPayloads p) :=
    .within fun _ hq => ⟨_, keeps_true p, trivial, fun _ _ => hq⟩
  have hopen : Keeps (fun q : Queue => q.settings = settings) ensureOpen :=
    keeps_memory.bind fun _ => .ite (keeps_throw _) (keeps_pure _)
  refine (hindex _).bind fun _ => .ite ?_ (.discard ?_)
  · exact hopen.bind fun _ => (hindex _).bind fun _ => (hpayloads _).bind fun _ => keeps_update
      fun _ hq => hq
  · exact hopen.bind fun _ => (hindex _).bind fun _ => (hpayloads _).discard.bind fun _ =>
      keeps_pure _

/-! ## Directories in which the same is read -/

/-- Two disks that hold the same in the directories of a queue. -/
structure Alike (settings : Settings) (d e : Disk) : Prop where
  valid : settings.validate = .ok ()
  grounds : d.Grounds (rootOf settings)
  grounds' : e.Grounds (rootOf settings)
  records : d.Matches e (recordDirectory settings) settings.pageSize 0
  payloads : d.Matches e (payloadDirectory settings) settings.pageSize 0

theorem Alike.onSettings (h : Alike settings d e) (policy : Policy) :
    Alike (policy.onSettings settings) d e :=
  { h with valid := policy.validate_onSettings h.valid }

theorem Paired.alike (h : Paired k s t) : Alike s.memory.settings s.host.disk t.host.disk :=
  ⟨h.valid, h.grounds, h.grounds', h.records.pages, h.payloads.pages⟩

/-- What two queues know stands over other disks, in which their caches show what they showed. -/
theorem Paired.over {host host' : Host} (h : Paired k s t)
    (halike : Alike s.memory.settings host.disk host'.disk) (hd : s.host.disk.Preserves host.disk)
    (he : t.host.disk.Preserves host'.disk) : Paired k ⟨host, s.memory⟩ ⟨host', t.memory⟩ :=
  { h with
    grounds := halike.grounds
    grounds' := halike.grounds'
    records := {
      left := ⟨h.records.left.directory_eq, h.records.left.pageSize_eq, .refl halike.grounds.sound⟩
      right :=
        ⟨h.records.right.directory_eq, h.records.right.pageSize_eq, .refl halike.grounds'.sound⟩
      pages := halike.records
      leftCoherent := hd h.records.leftCoherent
      rightCoherent := he h.records.rightCoherent
      length_eq := h.records.length_eq }
    payloads := {
      left :=
      ⟨h.payloads.left.directory_eq, h.payloads.left.pageSize_eq, .refl halike.grounds.sound⟩
      right :=
        ⟨h.payloads.right.directory_eq, h.payloads.right.pageSize_eq, .refl halike.grounds'.sound⟩
      pages := halike.payloads
      leftCoherent := hd h.payloads.leftCoherent
      rightCoherent := he h.payloads.rightCoherent
      length_eq := h.payloads.length_eq } }

/-! ## Opening -/

/-- What is opened over directories that are there. -/
theorem openFiles_blank {σ : Type} {s : Session σ} (hvalid : settings.validate = .ok ())
    (h : s.host.disk.Grounds (rootOf settings)) :
    (openFiles settings : Procedure σ Queue).Ensures s fun q t => t = s ∧ Mounted ⟨s.host, q⟩
      ∧ ∃ records payloads : PagedFile, q = blank settings records payloads
        ∧ records.length = s.host.disk.reach (recordDirectory settings) settings.pageSize
        ∧ payloads.length = s.host.disk.reach (payloadDirectory settings) settings.pageSize := by
  refine (((openFiles_of_grounds hvalid h).leads.and (openFiles_leads h.sound)).ensures
    fun _ _ hand => hand.1).mono fun q t hand => ?_
  obtain ⟨⟨rfl, hmounted, -⟩, -, hblank⟩ := hand
  exact ⟨rfl, hmounted, hblank⟩

/-- Queues that know nothing, opened over directories in which the same is read, are paired. -/
theorem Alike.paired {host host' : Host} (h : Alike settings host.disk host'.disk)
    {records payloads records' payloads' : PagedFile}
    (hs : Mounted ⟨host, blank settings records payloads⟩)
    (ht : Mounted ⟨host', blank settings records' payloads'⟩)
    (hrecords : records.length = records'.length) (hpayloads : payloads.length = payloads'.length) :
    Paired 0 ⟨host, blank settings records payloads⟩
      ⟨host', blank settings records' payloads'⟩ where
  settings_eq := rfl
  isClosed_eq := rfl
  changes_eq := rfl
  cursor_eq := rfl
  shifted := ⟨rfl, fun _ =>
    by simp [blank], fun _ => rfl, fun _ => by simp [blank], fun _ => by simp [blank],
    rfl, rfl⟩
  valid := h.valid
  grounds := h.grounds
  grounds' := h.grounds'
  records := {
    left := ⟨hs.recordDirectory, hs.recordSize, .refl h.grounds.sound⟩
    right := ⟨ht.recordDirectory, ht.recordSize, .refl h.grounds'.sound⟩
    pages := h.records
    leftCoherent := hs.recordCoherent
    rightCoherent := ht.recordCoherent
    length_eq := hrecords }
  payloads := {
    left := ⟨hs.payloadDirectory, hs.payloadSize, .refl h.grounds.sound⟩
    right := ⟨ht.payloadDirectory, ht.payloadSize, .refl h.grounds'.sound⟩
    pages := h.payloads
    leftCoherent := hs.payloadCoherent
    rightCoherent := ht.payloadCoherent
    length_eq := hpayloads }

/-- Paired queues find the same pages of records. Started from nothing, they cannot fail. -/
theorem recoverOrStart_agree (h : Paired k s t) (hs : Mounted s) (ht : Mounted t) :
    recoverOrStart.Agree recoverOrStart s t (fun _ u _ v => Paired k u v)
      fun u v => Paired k u v ∧ recordReach s ≠ 0 ∧ recordReach t ≠ 0 := by
  have hreach : recordReach s = recordReach t := by
    rw [recordReach, recordReach, ← h.settings_eq]
    exact h.alike.records.reach_eq
  have hpages {s : Session Queue} (h : Mounted s) : (onRecordPages PageStore.pageIndexes).Ensures s
      fun indexes u => u = s ∧ (indexes.isEmpty = true ↔ recordReach s = 0) := by
    rw [show recordReach s = _ from h.reachOf_eq.symm]
    exact recordPages_ensures (by rw [h.recordDirectory]; exact h.grounds.records)
  unfold recoverOrStart
  refine .seq (.of_ensures (hpages hs) (hpages ht) fun found u found' v hu hv => ?_)
  obtain ⟨rfl, hempty⟩ := hu
  obtain ⟨rfl, hempty'⟩ := hv
  by_cases hnone : recordReach u = 0
  · rw [if_pos (hempty.mpr hnone), if_pos (hempty'.mpr (hreach ▸ hnone))]
    refine (startEmpty_agree h.startable).mono (fun _ _ _ _ => id) fun _ _ hand => ?_
    exact absurd (hs.isOpen.symm.trans hand.1) (by decide)
  · rw [if_neg (mt hempty.mp hnone), if_neg (mt hempty'.mp (hreach ▸ hnone))]
    exact (twins_recover.discard u v h).mono (fun _ _ _ _ huv => huv.2) fun _ _ huv =>
      ⟨huv, hnone, hreach ▸ hnone⟩

/-- From directories in which the same is read the same is loaded, or neither can be loaded. Then
they are still alike, and nothing was lost. -/
theorem load_agree {σ : Type} {s t : Session σ} (h : Alike settings s.host.disk t.host.disk) :
    (load settings).Agree (load settings) s t (fun q u q' v => Paired 0 ⟨u.host, q⟩ ⟨v.host, q'⟩)
      fun u v => (u.memory = s.memory ∧ v.memory = t.memory)
        ∧ Alike settings u.host.disk v.host.disk
        ∧ s.host.disk.Preserves u.host.disk ∧ t.host.disk.Preserves v.host.disk := by
  unfold load
  refine .seq (.of_ensures (openFiles_blank h.valid h.grounds) (openFiles_blank h.valid h.grounds')
    fun q u q' v hu hv => ?_)
  obtain ⟨rfl, hs, records, payloads, rfl, hrecords, hpayloads⟩ := hu
  obtain ⟨rfl, ht, records', payloads', rfl, hrecords', hpayloads'⟩ := hv
  have hpaired := h.paired hs ht ((hrecords.trans h.records.reach_eq).trans hrecords'.symm)
    ((hpayloads.trans h.payloads.reach_eq).trans hpayloads'.symm)
  have hleft {q : Queue} {host : Host} (h : Mounted ⟨host, q⟩)
      (hlength : q.index.file.length = recordReach ⟨host, q⟩) :
      recoverOrStart.Leads ⟨host, q⟩ (fun _ _ => True) fun _ u => u.memory.settings = q.settings
        ∧ (recordReach ⟨host, q⟩ ≠ 0 → host.disk.Preserves u.host.disk) :=
    ((recoverOrStart_settings q.settings _ rfl).and (recoverOrStart_preserves h hlength)).mono
      (fun _ _ _ => trivial) fun _ _ => id
  have hloaded := (recoverOrStart_agree hpaired hs ht).failed_and (hleft hs hrecords)
      (hleft ht hrecords')
  refine .seq (agree_launch.mpr (hloaded.mono (fun _ _ _ _ => id) fun x y hand => ?_))
  obtain ⟨⟨hxy, hstarted, hstarted'⟩, ⟨hsettings, hx⟩, -, hy⟩ := hand
  have halike := hxy.alike
  rw [hsettings] at halike
  exact ⟨⟨rfl, rfl⟩, halike, hx hstarted, hy hstarted'⟩

theorem twins_reopen (closing : Bool) (policy : Policy) :
    Twins (fun s t => ∃ k, Paired k s t) Eq (reopen closing policy) (reopen closing policy) := by
  have hopen : Twins (fun s t => ∃ k, Paired k s t) Eq (do
      let queue ← load (policy.onSettings (← memory).settings)
      update fun _ => queue) (do
      let queue ← load (policy.onSettings (← memory).settings)
      update fun _ => queue) := by
    intro s t hst
    obtain ⟨k, h⟩ := hst
    refine .seq (agree_memory.mpr ?_)
    rw [← h.settings_eq]
    refine .bind ((load_agree (h.alike.onSettings policy)).mono
      (fun _ _ _ _ => id) fun u v hand => ?_)
      fun q u q' v hand => agree_update.mpr ⟨rfl, 0, hand⟩
    obtain ⟨⟨hu, hv⟩, halike, hd, he⟩ := hand
    have hover := h.over { halike with valid := h.valid } hd he
    rw [← hu, ← hv] at hover
    exact ⟨k, hover⟩
  cases closing with
  | false => exact hopen
  | true => exact (Twins.some_of fun _ => twins_close).bind fun _ _ _ => hopen

end Queue

namespace QueueStep

variable {s t : Session Queue}

/-- Whatever is done with two paired queues, both answer the same and are paired again. -/
theorem twins_run (step : QueueStep) :
    Twins (fun s t => ∃ k, Queue.Paired k s t) Eq step.run step.run := by
  have hanswer {α : Type} {p : Procedure Queue α}
      (h : Twins (fun s t => ∃ k, Queue.Paired k s t) Eq p p)
      (f : α → StepAnswer) : Twins (fun s t => ∃ k, Queue.Paired k s t) Eq
        (p >>= fun a => pure (f a)) (p >>= fun a => pure (f a)) :=
    h.bind fun a _ hab => hab ▸ twins_pure rfl
  cases step with
  | act action =>
    cases action with
    | call c => exact hanswer (.some_of fun _ => Queue.twins_run c) _
    | reopen closing policy =>
      exact hanswer ((Queue.twins_reopen closing policy).bind fun _ _ _ => twins_pure rfl) _
  | records => exact hanswer (.some_of fun _ => Queue.twins_records) _
  | footprint => exact hanswer (.some_of fun _ => Queue.twins_footprint) _
  | close => exact (Twins.some_of fun _ => Queue.twins_close).bind fun _ _ _ => twins_pure rfl

/-- What is answered to operations that follow one another. -/
def answers : List QueueStep → Session Queue → List (Except Fault StepAnswer)
  | [], _ => []
  | step :: rest, s => step.answer s :: answers rest (step.next s)

/-- Two paired queues answer the same to whatever operations follow one another. -/
theorem answers_eq (h : ∃ k, Queue.Paired k s t) (steps : List QueueStep) :
    answers steps s = answers steps t := by
  induction steps generalizing s t with
  | nil => rfl
  | cons step rest ih =>
    obtain ⟨hanswer, hnext⟩ := (step.twins_run s t h).outcome
    exact congrArg₂ List.cons hanswer (ih hnext)

end QueueStep

end PagedQueue
