import PagedQueue.Proofs.PairedIndexes
import PagedQueue.Proofs.RecordHistory

/-!
# Queues that cannot be told apart

Two queues with the same settings are paired if their files and their indexes are (`Queue.Paired`).
Every call comes to the same answer on both, and they stay paired (`Queue.twins_run`). To be paired
in the first place, it is enough that both start from nothing: what was on disk and in memory before
is gone then (`Queue.startEmpty_agree`).
-/

namespace PagedQueue

open Procedure
open Disk (Spares)

/-- The ways to the directories stay when something is done in one of them. -/
theorem Disk.Grounds.spared {d d' : Disk} {root : Path} {name : String} (h : d.Grounds root)
    (hd : Spares (root ++ [name]) d d') : d'.Grounds root :=
  ⟨hd.sound, fun hp => (hd.node? _ (hp.elim Stored.dropLast_ne Stored.dropLast_ne)).trans
    (h.ways hp)⟩

namespace PayloadLog

/-- Two payload logs over one directory that cannot be told apart. -/
structure Paired (directory : Path) (pageSize : Nat) (d e : Disk) (s t : Session PayloadLog) :
    Prop where
  file : PagedFile.Paired directory pageSize d e (s.part PayloadLog.file) (t.part PayloadLog.file)
  cursor_eq : s.memory.cursor = t.memory.cursor

variable {directory : Path} {pageSize : Nat} {d e : Disk} {α β : Type}

/-- What agrees on paired payload files agrees on the logs over them. -/
theorem twins_onFile {answers : α → β → Prop} {p : Procedure PagedFile α}
    {q : Procedure PagedFile β} (h : Twins (PagedFile.Paired directory pageSize d e) answers p q) :
    Twins (Paired directory pageSize d e) answers (onFile p) (onFile q) :=
  .within fun _ _ hst => ⟨_, h, hst.file, fun _ _ huv => ⟨huv, hst.cursor_eq⟩⟩

theorem twins_update {f g : PayloadLog → PayloadLog} (hf : ∀ m, (f m).file = m.file)
    (hg : ∀ m, (g m).file = m.file)
    (h : ∀ m m', m.cursor = m'.cursor → (f m).cursor = (g m').cursor) :
    Twins (Paired directory pageSize d e) (fun _ _ => True) (update f) (update g) :=
  Procedure.twins_update fun s t hst => by
    refine ⟨?_, h _ _ hst.cursor_eq⟩
    rw [Session.part, Session.part, hf, hg]
    exact hst.file

/-- A payload is appended at one offset in both. -/
theorem twins_append (payload : List UInt8) :
    Twins (Paired directory pageSize d e) Eq (append payload) (append payload) := by
  have hreserve : Twins (Paired directory pageSize d e) Eq (reserve payload.length)
      (reserve payload.length) := by
    refine twins_memory.bind fun m m' hm => ?_
    obtain ⟨_, _, hm⟩ := hm
    have hcursor : m.cursor = m'.cursor := hm.cursor_eq
    dsimp only
    rw [hcursor]
    exact .bind (twins_update (fun _ => rfl) (fun _ => rfl) fun _ _ _ => rfl) fun _ _ _ =>
      twins_pure rfl
  refine hreserve.bind fun offset _ heq => ?_
  subst heq
  exact (twins_onFile (PagedFile.twins_writeBytes _ _)).bind fun _ _ _ => twins_pure rfl

/-- The cursor is recovered alike. -/
theorem twins_recover : Twins (Paired directory pageSize d e) Eq recover recover := by
  refine (twins_onFile PagedFile.twins_recoverLength).bind fun length _ heq => ?_
  subst heq
  exact .bind (twins_update (fun _ => rfl) (fun _ => rfl) fun _ _ _ => rfl) fun _ _ _ =>
    twins_pure rfl

/-- Logs that start from an empty file are paired, whatever they were before. -/
theorem startEmpty_agree {s t : Session PayloadLog} (h : PagedFile.Beside directory pageSize
    (PageName.maxIndex + 1) d e (s.part file) (t.part file)) :
    startEmpty.Agree startEmpty s t (fun _ u _ v => Paired directory pageSize d e u v)
      fun _ _ => False := by
  unfold startEmpty
  refine .seq (agree_within.mpr ?_)
  exact h.reset.mono (fun _ _ _ _ huv => agree_update.mpr ⟨huv, rfl⟩) fun _ _ => id

end PayloadLog

namespace Queue

/-- What is known in memory is the same, but for where the entries are. -/
structure Likewise (k : Nat) (q q' : Queue) : Prop where
  settings_eq : q.settings = q'.settings
  isClosed_eq : q.isClosed = q'.isClosed
  changes_eq : q.changes = q'.changes
  cursor_eq : q.payloads.cursor = q'.payloads.cursor
  shifted : MessageIndex.Shifted k q.index q'.index

/-- Two queues that cannot be told apart. -/
structure Paired (k : Nat) (s t : Session Queue) : Prop extends Likewise k s.memory t.memory where
  valid : s.memory.settings.validate = .ok ()
  grounds : s.host.disk.Grounds (rootOf s.memory.settings)
  grounds' : t.host.disk.Grounds (rootOf s.memory.settings)
  records : PagedFile.Paired (recordDirectory s.memory.settings) s.memory.settings.pageSize
    s.host.disk
    t.host.disk ((indexOf s).part MessageIndex.file) ((indexOf t).part MessageIndex.file)
  payloads : PagedFile.Paired (payloadDirectory s.memory.settings) s.memory.settings.pageSize
    s.host.disk t.host.disk ((s.part Queue.payloads).part PayloadLog.file)
    ((t.part Queue.payloads).part PayloadLog.file)

variable {k : Nat} {s t : Session Queue} {α β : Type}

/-! ## Procedures -/

/-- What agrees on paired indexes agrees on the queues over them. -/
theorem twins_onIndex {answers : α → β → Prop} {p : Procedure MessageIndex α}
    {q : Procedure MessageIndex β}
    (h : ∀ {directory pageSize d e},
      Twins (MessageIndex.Paired k directory pageSize d e) answers p q) :
    Twins (Paired k) answers (onIndex p) (onIndex q) := by
  refine .within fun s t hst => ⟨_, h, ⟨hst.records, hst.shifted⟩, fun u v huv => ?_⟩
  obtain ⟨hother, -, hup⟩ := record_ne_payload s.memory.settings
  have hspares := huv.file.left.spares
  have hspares' := huv.file.right.spares
  exact { hst with
    shifted := huv.shifted
    grounds := hst.grounds.spared hspares
    grounds' := hst.grounds'.spared hspares'
    records := huv.file.rebase
    payloads := hst.payloads.spared hspares hspares' hother.symm hup }

/-- What agrees on paired payload logs agrees on the queues over them. -/
theorem twins_onPayloads {answers : α → β → Prop} {p : Procedure PayloadLog α}
    {q : Procedure PayloadLog β}
    (h : ∀ {directory pageSize d e}, Twins (PayloadLog.Paired directory pageSize d e) answers p q) :
    Twins (Paired k) answers (onPayloads p) (onPayloads q) := by
  refine .within fun s t hst => ⟨_, h, ⟨hst.payloads, hst.cursor_eq⟩, fun u v huv => ?_⟩
  obtain ⟨hother, hup, -⟩ := record_ne_payload s.memory.settings
  have hspares := huv.file.left.spares
  have hspares' := huv.file.right.spares
  exact { hst with
    cursor_eq := huv.cursor_eq
    grounds := hst.grounds.spared hspares
    grounds' := hst.grounds'.spared hspares'
    payloads := huv.file.rebase
    records := hst.records.spared hspares hspares' hother hup }

/-- What the memory of two paired queues has in common. -/
theorem twins_memory : Twins (Paired k) (Likewise k) memory memory :=
  Procedure.twins_memory.mono fun _ _ hand => hand.elim fun _ hand => hand.elim fun _ h =>
  h.toLikewise

/-- Both are open or both have been closed. -/
theorem ensureOpen_agree (h : s.memory.isClosed = t.memory.isClosed) :
    ensureOpen.Agree ensureOpen s t (fun _ u _ v => s.memory.isClosed = false ∧ u = s ∧ v = t)
      fun u v => s.memory.isClosed = true ∧ u = s ∧ v = t := by
  refine .seq (agree_memory.mpr ?_)
  rw [← h]
  cases s.memory.isClosed
  · exact ⟨rfl, rfl, rfl⟩
  · exact ⟨rfl, rfl, rfl, rfl⟩

theorem twins_ensureOpen : Twins (Paired k) Eq ensureOpen ensureOpen := fun _ _ h =>
  (ensureOpen_agree h.isClosed_eq).mono (fun _ _ _ _ hand => ⟨rfl, hand.2.1 ▸ hand.2.2 ▸ h⟩)
    fun _ _ hand => hand.2.1 ▸ hand.2.2 ▸ h

/-- The count of changes goes on alike. -/
theorem twins_withChanges {f : Queue → Nat} (hf : ∀ q q', Likewise k q q' → f q = f q') :
    Twins (Paired k) (fun _ _ => True) (update fun q => { q with changes := f q })
      (update fun q => { q with changes := f q }) :=
  twins_update fun _ _ h => { h with changes_eq := hf _ _ h.toLikewise }

theorem twins_flushFiles : Twins (Paired k) Eq flushFiles flushFiles :=
  (twins_onPayloads (PayloadLog.twins_onFile PagedFile.twins_flush)).bind fun _ _ _ =>
    twins_onIndex (MessageIndex.twins_onFile PagedFile.twins_flush)

/-- Both are forced out after the same change. -/
theorem twins_afterChange : Twins (Paired k) Eq afterChange afterChange := by
  refine twins_memory.bind fun q q' hq => ?_
  rw [hq.settings_eq]
  split
  · exact twins_flushFiles
  · refine (twins_withChanges fun _ _ h => by rw [h.changes_eq]).bind fun _ _ _ => ?_
    refine twins_memory.bind fun q q' hq => ?_
    rw [hq.changes_eq]
    refine .ite .rfl (fun _ => ?_) fun _ => twins_pure rfl
    exact (twins_withChanges fun _ _ _ => rfl).bind fun _ _ _ => twins_flushFiles
  · exact twins_pure rfl
  · exact twins_pure rfl

theorem twins_close : Twins (Paired k) Eq close close := by
  refine twins_memory.bind fun q q' hq => ?_
  rw [hq.isClosed_eq]
  refine .ite .rfl (fun _ => twins_pure rfl) fun _ => ?_
  refine .bind (twins_update fun _ _ h => { h with isClosed_eq := rfl }) fun _ _ _ => ?_
  exact (twins_onPayloads (PayloadLog.twins_onFile PagedFile.twins_close)).bind fun _ _ _ =>
    twins_onIndex (MessageIndex.twins_onFile PagedFile.twins_close)

/-! ## Messages -/

/-- An entry is read as one message in both. -/
theorem twins_readMessage (id : EntryId) :
    Twins (Paired k) Eq (readMessage (k + id)) (readMessage id) := by
  refine twins_memory.bind fun q q' hq => ?_
  rw [hq.shifted.entry_eq]
  refine (twins_onPayloads (PayloadLog.twins_onFile (PagedFile.twins_readBytes _ _))).bind
    fun payload _ heq => ?_
  subst heq
  exact twins_pure rfl

theorem twins_readMessage? (id? : Option EntryId) :
    Twins (Paired k) Eq (readMessage? (id?.map (k + ·))) (readMessage? id?) := by
  cases id? with
  | none => exact twins_pure rfl
  | some id =>
    refine (twins_readMessage id).bind fun m _ heq => ?_
    subst heq
    exact twins_pure rfl

/-- A move that both indexes make alike is a change of both queues. -/
theorem twins_change {move : Procedure MessageIndex (Option EntryId)}
    (h : ∀ {directory pageSize d e}, Twins (MessageIndex.Paired k directory pageSize d e)
      (fun a b => a = b.map (k + ·)) move move) :
    Twins (Paired k) Eq (change move) (change move) := by
  refine twins_ensureOpen.bind fun _ _ _ => (twins_onIndex h).bind fun moved moved' heq => ?_
  subst heq
  cases moved' with
  | none => exact twins_pure rfl
  | some id =>
    refine twins_afterChange.bind fun _ _ _ => (twins_readMessage id).bind fun m _ heq => ?_
    subst heq
    exact twins_pure rfl

/-- A message is pushed alike. -/
theorem twins_push (m : Message) : Twins (Paired k) Eq (push m) (push m) := by
  have hstore : Twins (Paired k) (fun _ _ => True) (store m) (store m) := by
    refine (twins_onPayloads (PayloadLog.twins_append _)).bind fun offset _ heq => ?_
    subst heq
    exact (twins_onIndex (MessageIndex.twins_publish _ _ _ _)).discard
  refine twins_ensureOpen.bind fun _ _ _ => ?_
  refine .ite .rfl (fun _ => twins_throw _) fun _ => .ite .rfl (fun _ => twins_throw _) fun _ => ?_
  refine (twins_onIndex (MessageIndex.twins_reserve _)).bind fun possible _ heq => ?_
  subst heq
  refine .ite .rfl (fun _ => twins_pure rfl) fun _ => ?_
  refine (hstore.tryFinally (twins_onIndex (MessageIndex.twins_withdraw _))).bind fun _ _ _ => ?_
  exact twins_afterChange.bind fun _ _ _ => twins_pure rfl

/-! ## The directories -/

/-- Both count the same pages. -/
theorem twins_recordPages : Twins (Paired k) (fun a b => ∀ index, index ∈ a ↔ index ∈ b)
    (onRecordPages PageStore.pageIndexes) (onRecordPages PageStore.pageIndexes) :=
  twins_onIndex (MessageIndex.twins_onFile PagedFile.twins_pageIndexes)

theorem twins_records : Twins (Paired k) Eq records records :=
  twins_ensureOpen.bind fun _ _ _ => twins_onIndex MessageIndex.twins_records

/-- Both take the same room on their disks. -/
theorem twins_footprint : Twins (Paired k) Eq footprint footprint := by
  refine twins_recordPages.bind fun a b hab => ?_
  refine (twins_onPayloads (PayloadLog.twins_onFile PagedFile.twins_pageIndexes)).bind
    fun a' b' hab' => ?_
  refine (twins_onIndex (MessageIndex.twins_onFile PagedFile.twins_totalSize)).bind
    fun total _ heq => ?_
  subst heq
  refine (twins_onPayloads (PayloadLog.twins_onFile PagedFile.twins_totalSize)).bind
    fun total' _ heq => ?_
  subst heq
  refine twins_memory.bind fun q q' hq => twins_pure ?_
  rw [(Std.TreeSet.Equiv.of_forall_mem_iff hab).size_eq,
    (Std.TreeSet.Equiv.of_forall_mem_iff hab').size_eq,
    hq.cursor_eq]

theorem twins_checkpoint : Twins (Paired k) Eq checkpoint checkpoint :=
  (twins_onIndex (MessageIndex.twins_onFile PagedFile.twins_checkpointPages)).bind fun _ _ _ =>
    twins_onPayloads (PayloadLog.twins_onFile PagedFile.twins_checkpointPages)

/-- Both come up with the same messages. -/
theorem twins_recover : Twins (Paired k) Eq recover recover := by
  refine twins_ensureOpen.bind fun _ _ _ => ?_
  refine (twins_onIndex MessageIndex.twins_recover).bind fun tally _ heq => ?_
  subst heq
  exact (twins_onPayloads PayloadLog.twins_recover).discard.bind fun _ _ _ => twins_pure rfl

/-! ## Starting from nothing -/

/-- Two queues with the same settings over the same directories, of which it is only asked that the
pages can be deleted, and of what they know only that the same pushes are under way. -/
structure Startable (k : Nat) (s t : Session Queue) : Prop where
  settings_eq : s.memory.settings = t.memory.settings
  isClosed_eq : s.memory.isClosed = t.memory.isClosed
  tabled : MessageIndex.Tabled k s.memory.index t.memory.index
  valid : s.memory.settings.validate = .ok ()
  grounds : s.host.disk.Grounds (rootOf s.memory.settings)
  grounds' : t.host.disk.Grounds (rootOf s.memory.settings)
  records : PagedFile.Beside (recordDirectory s.memory.settings) s.memory.settings.pageSize
    (PageName.maxIndex + 1) s.host.disk t.host.disk ((indexOf s).part MessageIndex.file)
    ((indexOf t).part MessageIndex.file)
  payloads : PagedFile.Beside (payloadDirectory s.memory.settings) s.memory.settings.pageSize
    (PageName.maxIndex + 1) s.host.disk t.host.disk ((s.part Queue.payloads).part PayloadLog.file)
    ((t.part Queue.payloads).part PayloadLog.file)

/-- Queues that start from nothing are paired, whatever they were before. Only closed ones
refuse. -/
theorem startEmpty_agree (h : Startable k s t) :
    startEmpty.Agree startEmpty s t (fun _ u _ v => Paired k u v)
      fun u v => s.memory.isClosed = true ∧ u = s ∧ v = t := by
  obtain ⟨hother, hup, hup'⟩ := record_ne_payload s.memory.settings
  unfold startEmpty
  refine (ensureOpen_agree h.isClosed_eq).bind fun _ s' _ t' hand => ?_
  obtain ⟨-, rfl, rfl⟩ := hand
  refine .seq (agree_within.mpr ?_)
  refine (MessageIndex.startEmpty_agree h.records h.tabled).mono
    (fun _ u _ v huv => ?_) fun _ _ => False.elim
  have hspares := huv.file.left.spares
  have hspares' := huv.file.right.spares
  have hpayloads := h.payloads.spared hspares hspares' hother.symm hup'
  refine .seq (agree_within.mpr ?_)
  refine (PayloadLog.startEmpty_agree hpayloads).mono (fun _ x _ y hxy => agree_update.mpr ?_)
    fun _ _ => False.elim
  have hlater := hxy.file.left.spares
  have hlater' := hxy.file.right.spares
  exact {
    settings_eq := h.settings_eq
    isClosed_eq := h.isClosed_eq
    changes_eq := rfl
    cursor_eq := hxy.cursor_eq
    shifted := huv.shifted
    valid := h.valid
    grounds := (h.grounds.spared hspares).spared hlater
    grounds' := (h.grounds'.spared hspares').spared hlater'
    records := huv.file.spared hlater hlater' hother hup
    payloads := hxy.file.rebase }

/-- What one can start on, so can the other. -/
theorem Paired.startable (h : Paired k s t) : Startable k s t where
  settings_eq := h.settings_eq
  isClosed_eq := h.isClosed_eq
  tabled := h.shifted.tabled
  valid := h.valid
  grounds := h.grounds
  grounds' := h.grounds'
  records := h.records.toBeside.mono (Nat.zero_le _)
  payloads := h.payloads.toBeside.mono (Nat.zero_le _)

/-- Both start afresh alike. -/
theorem twins_startEmpty : Twins (Paired k) Eq startEmpty startEmpty := fun _ _ h =>
  (startEmpty_agree h.startable).mono (fun _ _ _ _ huv => ⟨rfl, huv⟩)
    fun _ _ hand => hand.2.1 ▸ hand.2.2 ▸ h

/-- Every call is answered alike. -/
theorem twins_run (c : QueueCall) : Twins (Paired k) Eq c.run c.run := by
  have heq {α : Type} {p : Procedure Queue α} (h : Twins (Paired k) Eq p p) (f : α → QueueAnswer) :
      Twins (Paired k) Eq (p >>= fun a => pure (f a)) (p >>= fun a => pure (f a)) :=
    h.bind fun a _ hab => hab ▸ twins_pure rfl
  cases c with
  | push m => exact heq (twins_push m) _
  | get uuid =>
    refine heq (twins_ensureOpen.bind fun _ _ _ => twins_memory.bind fun q q' hq => ?_) _
    rw [hq.shifted.find?_eq]
    exact twins_readMessage? _
  | lock uuid => exact heq (twins_change (MessageIndex.twins_transition _ _ _)) _
  | pop => exact heq (twins_change MessageIndex.twins_pop) _
  | peek =>
    refine heq (twins_ensureOpen.bind fun _ _ _ => twins_memory.bind fun q q' hq => ?_) _
    rw [hq.shifted.oldestNew?_eq]
    exact twins_readMessage? _
  | finish uuid => exact heq (twins_change (MessageIndex.twins_finish _)) _
  | rollback uuid => exact heq (twins_change (MessageIndex.twins_transition _ _ _)) _
  | status uuid =>
    exact twins_memory.bind fun q q' hq => twins_pure (congrArg _ (hq.shifted.status?_eq uuid))
  | size => exact twins_memory.bind fun q q' hq => twins_pure (congrArg _ hq.shifted.size_live_eq)
  | recordCount =>
    exact twins_memory.bind fun q q' hq => twins_pure (congrArg _ hq.shifted.count_eq)
  | flush => exact heq (twins_ensureOpen.bind fun _ _ _ => twins_flushFiles) _
  | checkpoint => exact heq twins_checkpoint _
  | recover => exact heq twins_recover _
  | startEmpty => exact heq twins_startEmpty _

end Queue

end PagedQueue
