import PagedQueue.Index.Recovery
import PagedQueue.Index.Transition
import PagedQueue.Proofs.IndexSteps
import PagedQueue.Proofs.PairedFiles

/-!
# Indexes that cannot be told apart

Entries are never taken out of the table of an index, so an index that is used longer has more of
them in front. Two indexes are paired if their files are, and if they know the same messages by
entries that come some places later in the one than in the other (`MessageIndex.Shifted`). Whatever
is done with both comes to the same answer, where an answer that names an entry names it as many
places later (`MessageIndex.twins_publish`, `MessageIndex.twins_pop`, `MessageIndex.twins_recover`,
…).
-/

namespace PagedQueue

open Procedure

namespace MessageIndex

/-- The entries of one table come `k` places later in another one, and the same pushes are under
way. -/
structure Tabled (k : Nat) (m m' : MessageIndex) : Prop where
  size_eq : m.entries.size = k + m'.entries.size
  getElem?_eq : ∀ id : EntryId, m.entries[k + id]? = m'.entries[id]?
  pending_eq : ∀ uuid, m.pending.contains uuid = m'.pending.contains uuid

/-- The same messages are known, by entries that come `k` places later. -/
structure Shifted (k : Nat) (m m' : MessageIndex) : Prop where
  size_eq : m.entries.size = k + m'.entries.size
  getElem?_eq : ∀ id : EntryId, m.entries[k + id]? = m'.entries[id]?
  pending_eq : ∀ uuid, m.pending.contains uuid = m'.pending.contains uuid
  live_eq : ∀ uuid : Uuid, m.live[uuid]? = m'.live[uuid]?.map (k + ·)
  ordered_eq : ∀ position : Nat, m.ordered[position]? = m'.ordered[position]?.map (k + ·)
  next_eq : m.next = m'.next
  count_eq : m.count = m'.count

/-- Two indexes over one directory that cannot be told apart. -/
structure Paired (k : Nat) (directory : Path) (pageSize : Nat) (d e : Disk)
    (s t : Session MessageIndex) :
    Prop where
  file : PagedFile.Paired directory pageSize d e (s.part MessageIndex.file)
    (t.part MessageIndex.file)
  shifted : Shifted k s.memory t.memory

variable {k pageSize : Nat} {directory : Path} {d e : Disk} {m m' : MessageIndex} {id id' : EntryId}
  {α β : Type}

/-! ## What is known -/

namespace Shifted

/-- The indexes stay shifted whatever becomes of the record files. -/
theorem withFile (h : Shifted k m m') (f f' : PagedFile) :
    Shifted k { m with file := f } { m' with file := f' } := { h with }

theorem tabled (h : Shifted k m m') : Tabled k m m' := ⟨h.size_eq, h.getElem?_eq, h.pending_eq⟩

/-- The entry of one index stands in the other, `k` places further on. -/
theorem entry_eq (h : Shifted k m m') (id : EntryId) : m.entry (k + id) = m'.entry id := by
  rw [entry, entry, Array.getD_eq_getD_getElem?, Array.getD_eq_getD_getElem?, h.getElem?_eq]

/-- Both hold equally many live messages. -/
theorem size_live_eq (h : Shifted k m m') : m.size = m'.size := by
  have hlive : m.live.Equiv (m'.live.map fun _ id => k + id) :=
    .of_forall_constGet?_eq fun uuid => by
    rw [h.live_eq, Std.TreeMap.getElem?_map]
  rw [size, hlive.size_eq, Std.TreeMap.size_map]
  rfl

/-- A message is live in both or in neither. -/
theorem contains_live_eq (h : Shifted k m m') (uuid : Uuid) :
    m.live.contains uuid = m'.live.contains uuid := by
  rw [Std.TreeMap.contains_eq_isSome_getElem?, Std.TreeMap.contains_eq_isSome_getElem?, h.live_eq,
    Option.isSome_map]

/-- The ordered maps name the same entries, shifted. -/
theorem values_eq (h : Shifted k m m') : m.ordered.values = m'.ordered.values.map (k + ·) := by
  have hordered : m.ordered.Equiv (m'.ordered.map fun _ id => k + id) :=
    .of_forall_constGet?_eq fun position => by rw [h.ordered_eq, Std.TreeMap.getElem?_map]
  rw [values_eq_map_toList, values_eq_map_toList, hordered.toList_eq, Std.TreeMap.toList_map,
    List.map_map, List.map_map]
  rfl

/-- A message is found at the shifted place. -/
theorem find?_eq (h : Shifted k m m') (uuid : Uuid) :
    m.find? uuid = (m'.find? uuid).map (k + ·) := by
  rw [find?, find?, h.live_eq]
  cases m'.live[uuid]? with
  | none => rfl
  | some id =>
    simp only [Option.map_some, Option.filter_some, h.entry_eq]
    split <;> rfl

/-- A message has one status in both. -/
theorem status?_eq (h : Shifted k m m') (uuid : Uuid) : m.status? uuid = m'.status? uuid := by
  rw [status?, status?, h.find?_eq, Option.map_map]
  simp only [Function.comp_def, h.entry_eq]

/-- The oldest new message is the same one. -/
theorem oldestNew?_eq (h : Shifted k m m') : m.oldestNew? = m'.oldestNew?.map (k + ·) := by
  rw [oldestNew?, oldestNew?, h.values_eq, List.find?_map]
  simp only [Function.comp_def, h.entry_eq]

end Shifted

/-! ## Procedures -/

/-- What agrees on paired record files agrees on the indexes over them. -/
theorem twins_onFile {answers : α → β → Prop} {p : Procedure PagedFile α}
    {q : Procedure PagedFile β} (h : Twins (PagedFile.Paired directory pageSize d e) answers p q) :
    Twins (Paired k directory pageSize d e) answers (onFile p) (onFile q) :=
  .within fun _ _ hst => ⟨_, h, hst.file, fun _ _ huv => ⟨huv, hst.shifted.withFile _ _⟩⟩

/-- What the memory of two paired indexes has in common. -/
theorem twins_memory : Twins (Paired k directory pageSize d e)
    (fun m m' => Shifted k m m' ∧ m.file.length = m'.file.length) memory memory :=
  Procedure.twins_memory.mono fun _ _ hand => hand.elim fun _ hand => hand.elim fun _ h =>
    ⟨h.shifted, h.file.length_eq⟩

/-- Both indexes get to know the same. -/
theorem twins_update {f g : MessageIndex → MessageIndex} (hf : ∀ m, (f m).file = m.file)
    (hg : ∀ m, (g m).file = m.file) (h : ∀ m m', Shifted k m m' → Shifted k (f m) (g m')) :
    Twins (Paired k directory pageSize d e) (fun _ _ => True) (update f) (update g) :=
  Procedure.twins_update fun s t hst => by
    refine ⟨?_, h _ _ hst.shifted⟩
    rw [Session.part, Session.part, hf, hg]
    exact hst.file

/-! ## Records -/

theorem twins_readRecord (position : Nat) :
    Twins (Paired k directory pageSize d e) Eq (readRecord position) (readRecord position) := by
  refine (twins_onFile (PagedFile.twins_readBytes _ _)).bind fun _ bytes heq => ?_
  subst heq
  exact twins_ofExcept _

theorem twins_records : Twins (Paired k directory pageSize d e) Eq records records := by
  refine twins_memory.bind fun m m' hm => ?_
  rw [hm.1.count_eq]
  exact .mapM twins_readRecord _

/-- The count of records is raised alike. -/
theorem twins_raiseCount (count : Nat) :
    Twins (Paired k directory pageSize d e)
      (fun _ _ => True) (raiseCount count) (raiseCount count) := by
  refine twins_memory.bind fun m m' hm => ?_
  rw [hm.1.count_eq]
  refine .ite .rfl (fun _ => ?_) fun _ => twins_pure trivial
  refine (twins_onFile (PagedFile.twins_writeInt32 _ _)).bind fun _ _ _ => ?_
  exact twins_update (fun _ => rfl) (fun _ => rfl) fun _ _ h => { h with count_eq := rfl }

/-- The status of an entry is written alike. -/
theorem twins_persistStatus (hid : id = k + id') :
    Twins (Paired k directory pageSize d e) Eq (persistStatus id) (persistStatus id') := by
  refine twins_memory.bind fun m m' hm => ?_
  rw [hid, hm.1.entry_eq]
  exact twins_onFile (PagedFile.twins_writeInt32 _ _)

/-! ## Entering messages -/

theorem twins_notePending (uuid : Uuid) :
    Twins (Paired k directory pageSize d e) Eq (notePending uuid) (notePending uuid) := by
  refine twins_memory.bind fun m m' hm => ?_
  rw [hm.1.pending_eq]
  refine .ite .rfl (fun _ => twins_pure rfl) fun _ => ?_
  refine .bind (twins_update (fun _ => rfl) (fun _ => rfl) fun m m' h =>
    { h with pending_eq := fun other => ?_ }) fun _ _ _ => twins_pure rfl
  rw [contains_insert_pending, contains_insert_pending, h.pending_eq]

theorem twins_withdraw (uuid : Uuid) :
    Twins (Paired k directory pageSize d e) (fun _ _ => True) (withdraw uuid) (withdraw uuid) := by
  refine twins_update (fun _ => rfl) (fun _ => rfl) fun m m' h =>
    { h with pending_eq := fun other => ?_ }
  rw [contains_erase_pending, contains_erase_pending, h.pending_eq]

theorem twins_reserve (uuid : Uuid) :
    Twins (Paired k directory pageSize d e) Eq (reserve uuid) (reserve uuid) := by
  refine (twins_notePending uuid).bind fun possible _ heq => ?_
  subst heq
  refine .ite .rfl (fun _ => twins_pure rfl) fun _ => ?_
  refine twins_memory.bind fun m m' hm => ?_
  rw [hm.1.contains_live_eq]
  exact .ite .rfl (fun _ => (twins_withdraw uuid).bind fun _ _ _ => twins_pure rfl) fun _ =>
    twins_pure rfl

/-- Both push at one position, as both count alike. -/
theorem twins_takePosition :
    Twins (Paired k directory pageSize d e) Eq takePosition takePosition := by
  refine twins_memory.bind fun m m' hm => ?_
  have hnext := hm.1.next_eq
  dsimp only
  rw [hnext]
  exact .bind (twins_update (fun _ => rfl) (fun _ => rfl) fun _ _ h => { h with next_eq := rfl })
    fun _ _ _ => twins_pure rfl

/-- The new entry comes as many places later as the others. -/
theorem twins_addEntry (entry : Entry) :
    Twins (Paired k directory pageSize d e) (fun id id' => id = k + id')
    (addEntry entry) (addEntry entry) := by
  refine twins_memory.bind fun m m' hm => ?_
  refine .bind (twins_update (fun _ => rfl) (fun _ => rfl) fun m m' h =>
    { h with size_eq := ?_, getElem?_eq := fun id => ?_ }) fun _ _ _ => twins_pure hm.1.size_eq
  · simp only [Array.size_push, h.size_eq, Nat.add_assoc]
  · simp only [Array.getElem?_push, h.size_eq, Nat.add_left_cancel_iff, h.getElem?_eq]

theorem twins_enterLive (uuid : Uuid) (hid : id = k + id') :
    Twins (Paired k directory pageSize d e)
      (fun _ _ => True) (enterLive uuid id) (enterLive uuid id') := by
  refine twins_update (fun _ => rfl)
    (fun _ => rfl) fun m m' h => { h with live_eq := fun other => ?_ }
  simp only [Std.TreeMap.getElem?_insert, h.live_eq, hid]
  split <;> rfl

theorem twins_enterOrdered (position : Nat) (hid : id = k + id') :
    Twins (Paired k directory pageSize d e) (fun _ _ => True) (enterOrdered position id)
      (enterOrdered position id') := by
  refine twins_update (fun _ => rfl)
    (fun _ => rfl) fun m m' h => { h with ordered_eq := fun other => ?_ }
  simp only [Std.TreeMap.getElem?_insert, h.ordered_eq, hid]
  split <;> rfl

/-- A record is published under shifted entries. -/
theorem twins_publish (uuid : Uuid) (offset : UInt64) (length : UInt32) (kind : Kind) :
    Twins (Paired k directory pageSize d e)
      (fun id id' => id = k + id') (publish uuid offset length kind)
      (publish uuid offset length kind) := by
  refine twins_takePosition.bind fun position _ heq => ?_
  subst heq
  refine (twins_addEntry _).bind fun id id' hid => ?_
  refine (twins_onFile (PagedFile.twins_writeBytes _ _)).bind fun _ _ _ => ?_
  refine (twins_raiseCount _).bind fun _ _ _ => (twins_enterLive uuid hid).bind fun _ _ _ => ?_
  exact (twins_enterOrdered position hid).bind fun _ _ _ => twins_pure hid

/-! ## Moving messages -/

/-- A status moves in both or in neither. -/
theorem twins_compareAndSet (hid : id = k + id') (expected status : Status) :
    Twins (Paired k directory pageSize d e) Eq (compareAndSet id expected status)
      (compareAndSet id' expected status) := by
  subst hid
  refine twins_memory.bind fun m m' hm => ?_
  rw [hm.1.entry_eq]
  refine .ite .rfl (fun _ => ?_) fun _ => twins_pure rfl
  refine .bind (twins_update (fun _ => rfl) (fun _ => rfl) fun m m' h =>
    { h with size_eq := ?_, getElem?_eq := fun other => ?_ }) fun _ _ _ => twins_pure rfl
  · simp only [Array.size_modify, h.size_eq]
  · simp only [Array.getElem?_modify, Nat.add_left_cancel_iff, h.getElem?_eq]

/-- A message moves from status to status alike. -/
theorem twins_transition (uuid : Uuid) (expected status : Status) :
    Twins (Paired k directory pageSize d e)
      (fun a b => a = b.map (k + ·)) (transition uuid expected status)
      (transition uuid expected status) := by
  refine twins_memory.bind fun m m' hm => ?_
  rw [hm.1.find?_eq]
  cases m'.find? uuid with
  | none => exact twins_pure rfl
  | some id =>
    refine (twins_compareAndSet rfl expected status).bind fun moved _ heq => ?_
    subst heq
    refine .ite .rfl (fun _ => ?_) fun _ => twins_pure rfl
    exact (twins_persistStatus rfl).bind fun _ _ _ => twins_pure rfl

theorem twins_leaveLive (hid : id = k + id') :
    Twins (Paired k directory pageSize d e) (fun _ _ => True) (leaveLive id) (leaveLive id') := by
  subst hid
  refine twins_memory.bind fun m m' hm => ?_
  rw [hm.1.entry_eq]
  refine twins_memory.bind fun n n' hn => ?_
  rw [hn.1.live_eq]
  refine .ite ?_ (fun _ => ?_) fun _ => twins_pure trivial
  · cases n'.live[(m'.entry id').uuid]? <;> simp
  · refine twins_update (fun _ => rfl)
      (fun _ => rfl) fun m m' h => { h with live_eq := fun other => ?_ }
    simp only [Std.TreeMap.getElem?_erase, h.live_eq]
    split <;> rfl

theorem twins_leaveOrdered (hid : id = k + id') :
    Twins (Paired k directory pageSize d e)
      (fun _ _ => True) (leaveOrdered id) (leaveOrdered id') := by
  subst hid
  refine twins_memory.bind fun m m' hm => ?_
  rw [hm.1.entry_eq]
  refine twins_update (fun _ => rfl)
    (fun _ => rfl) fun m m' h => { h with ordered_eq := fun other => ?_ }
  simp only [Std.TreeMap.getElem?_erase, h.ordered_eq]
  split <;> rfl

/-- A message is deleted alike. -/
theorem twins_finish (uuid : Uuid) :
    Twins (Paired k directory pageSize d e) (fun a b => a = b.map (k + ·))
    (finish uuid) (finish uuid) := by
  refine (twins_transition uuid _ _).bind fun moved moved' heq => ?_
  subst heq
  cases moved' with
  | none => exact twins_pure rfl
  | some id =>
    refine (twins_leaveLive rfl).bind fun _ _ _ => (twins_leaveOrdered rfl).bind fun _ _ _ => ?_
    exact twins_pure rfl

/-- Both take the same message of a list of candidates. -/
theorem twins_takeFirst (ids : List EntryId) : Twins (Paired k directory pageSize d e)
    (fun a b => a = b.map (k + ·)) (takeFirst (ids.map (k + ·))) (takeFirst ids) := by
  induction ids with
  | nil => exact twins_pure rfl
  | cons id rest ih =>
    refine (twins_compareAndSet rfl .new .locked).bind fun moved _ heq => ?_
    subst heq
    refine .ite .rfl (fun _ => ?_) fun _ => ih
    exact (twins_persistStatus rfl).bind fun _ _ _ => twins_pure rfl

theorem twins_pop :
    Twins (Paired k directory pageSize d e) (fun a b => a = b.map (k + ·)) pop pop := by
  refine twins_memory.bind fun m m' hm => ?_
  rw [hm.1.values_eq]
  exact twins_takeFirst _

/-! ## Recovery -/

theorem twins_readCount : Twins (Paired k directory pageSize d e) Eq readCount readCount := by
  refine twins_memory.bind fun m m' hm => ?_
  rw [hm.2]
  refine .ite .rfl (fun _ => twins_pure rfl) fun _ => ?_
  refine (twins_onFile (PagedFile.twins_readInt32 0)).bind fun count _ heq => ?_
  subst heq
  refine .ite .rfl (fun _ => twins_throw _) fun _ => ?_
  exact .ite .rfl (fun _ => twins_throw _) fun _ => twins_pure rfl

/-- The tallies are the same, and the order found so far names entries that come later. -/
theorem twins_recoverRecord {found found' : Tally × Std.TreeMap Nat EntryId} (position : Nat)
    (hfound : found.1 = found'.1 ∧ ∀ p : Nat, found.2[p]? = found'.2[p]?.map (k + ·)) :
    Twins (Paired k directory pageSize d e)
      (fun a b => a.1 = b.1 ∧ ∀ p : Nat, a.2[p]? = b.2[p]?.map (k + ·))
      (recoverRecord found position) (recoverRecord found' position) := by
  obtain ⟨tally, ordered⟩ := found
  obtain ⟨_, ordered'⟩ := found'
  obtain ⟨rfl, hordered⟩ := hfound
  refine (twins_readRecord position).bind fun record _ heq => ?_
  subst heq
  refine (twins_ofExcept _).bind fun slot _ heq => ?_
  subst heq
  cases slot with
  | vacant => exact twins_pure ⟨rfl, hordered⟩
  | tombstone => exact twins_pure ⟨rfl, hordered⟩
  | live entry =>
    refine twins_memory.bind fun m m' hm => ?_
    rw [hm.1.contains_live_eq]
    refine .ite .rfl (fun _ => twins_pure ⟨rfl, hordered⟩) fun _ => ?_
    refine (twins_addEntry entry).bind fun id id' hid => (twins_enterLive _ hid).bind
      fun _ _ _ => ?_
    refine twins_pure ⟨rfl, fun p => ?_⟩
    simp only [Std.TreeMap.getElem?_insert, hordered, hid]
    split <;> rfl

/-- Recovery reads the same records and so indexes them alike. -/
theorem twins_recover : Twins (Paired k directory pageSize d e) Eq recover recover := by
  unfold recover
  refine .bind (twins_update (fun _ => rfl) (fun _ => rfl) fun m m' h =>
    { h with live_eq := fun _ => by simp, ordered_eq := fun _ => by simp }) fun _ _ _ => ?_
  refine (twins_onFile PagedFile.twins_recoverLength).discard.bind fun _ _ _ => ?_
  refine twins_readCount.bind fun count _ heq => ?_
  subst heq
  refine (Twins.foldlM
    (fun _ _ position => twins_recoverRecord position) _ ⟨rfl, fun p => by simp⟩).bind
    fun found found' hfound => ?_
  obtain ⟨tally, ordered⟩ := found
  obtain ⟨_, ordered'⟩ := found'
  obtain ⟨rfl, hordered⟩ := hfound
  exact .bind (twins_update (fun _ => rfl) (fun _ => rfl) fun _ _ h =>
    { h with ordered_eq := hordered, count_eq := rfl, next_eq := rfl }) fun _ _ _ => twins_pure rfl

/-! ## Starting from nothing -/

/-- Indexes that start from nothing are paired, whatever they knew before. -/
theorem startEmpty_agree {s t : Session MessageIndex} (hfile : PagedFile.Beside directory pageSize
    (PageName.maxIndex + 1) d e (s.part file) (t.part file))
      (htabled : Tabled k s.memory t.memory) :
    startEmpty.Agree startEmpty s t (fun _ u _ v => Paired k directory pageSize d e u v)
      fun _ _ => False := by
  unfold startEmpty
  refine .seq (agree_update.mpr (.seq (agree_within.mpr ?_)))
  refine hfile.reset.mono (fun _ u _ v huv => ?_) fun _ _ => id
  refine .seq (agree_within.mpr ?_)
  refine (huv.writeInt32 0 0).mono (fun _ x _ y hxy => ?_) fun _ _ => id
  refine agree_update.mpr ⟨hxy.2, ?_⟩
  exact {
    size_eq := htabled.size_eq
    getElem?_eq := htabled.getElem?_eq
    pending_eq := htabled.pending_eq
    live_eq := fun _ => by simp
    ordered_eq := fun _ => by simp
    next_eq := rfl
    count_eq := rfl }

end MessageIndex

end PagedQueue
