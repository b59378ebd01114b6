import PagedQueue.Proofs.IndexMemory
import PagedQueue.Proofs.Keeping

/-!
# Entries by their UUIDs

The UUIDs of an index lead to entries that have them (`MessageIndex.Indexed`). Every operation of
the index keeps this, whether it succeeds or fails and whatever is on disk: an entry is made before
its UUID leads to it, and an entry never changes its UUID.
-/

namespace PagedQueue

open Procedure
open PagedFile (Lasting)

namespace MessageIndex

/-- The UUIDs lead to entries that have them. -/
def Indexed (m : MessageIndex) : Prop :=
  ∀ (uuid : Uuid) (id : EntryId), m.live[uuid]? = some id →
    id < m.entries.size ∧ (m.entry id).uuid = uuid

variable {m m' : MessageIndex}

theorem indexed_of_empty (h : m.live = {}) : m.Indexed := by
  intro uuid id hid
  rw [h, Std.TreeMap.getElem?_emptyc] at hid
  cases hid

/-- An entry is added to the table and made known by its UUID. -/
theorem Holds.indexed {held : Nat → Option Entry} (h : Holds m held) : m.Indexed := by
  intro uuid id hid
  obtain ⟨p, hp, huuid⟩ := (h.live_iff uuid id).mp hid
  exact ⟨h.lt_size hp, huuid⟩

theorem Indexed.enter {entry : Entry} (h : m.Indexed) (hentries : m'.entries = m.entries.push entry)
    (hlive : m'.live = m.live.insert entry.uuid m.entries.size) : m'.Indexed := by
  intro uuid id hid
  rw [hlive, Std.TreeMap.getElem?_insert] at hid
  rw [hentries, Array.size_push]
  split at hid
  next heq =>
    cases hid
    exact ⟨Nat.lt_succ_self _, by
      rw [entry_of_push_self hentries, Std.LawfulEqCmp.compare_eq_iff_eq.mp heq]⟩
  next =>
    obtain ⟨hlt, huuid⟩ := h uuid id hid
    exact ⟨Nat.lt_succ_of_lt hlt, by rw [entry_of_push hentries hlt, huuid]⟩

/-- An entry is added to the table, and no UUID leads to it yet. -/
theorem Indexed.push {entry : Entry} (h : m.Indexed) (hentries : m'.entries = m.entries.push entry)
    (hlive : m'.live = m.live) : m'.Indexed := by
  intro uuid id hid
  rw [hlive] at hid
  obtain ⟨hlt, huuid⟩ := h uuid id hid
  rw [hentries, Array.size_push, entry_of_push hentries hlt]
  exact ⟨Nat.lt_succ_of_lt hlt, huuid⟩

/-- A UUID is made to lead to an entry that has it. -/
theorem Indexed.insert {uuid : Uuid} {id : EntryId} (h : m.Indexed) (hlt : id < m.entries.size)
    (huuid : (m.entry id).uuid = uuid) (hentries : m'.entries = m.entries)
    (hlive : m'.live = m.live.insert uuid id) : m'.Indexed := by
  intro other id' hid
  have hentry : m'.entry id' = m.entry id' := by rw [entry, hentries, entry]
  rw [hlive, Std.TreeMap.getElem?_insert] at hid
  rw [hentries, hentry]
  split at hid
  next heq =>
    cases hid
    exact ⟨hlt, huuid.trans (Std.LawfulEqCmp.compare_eq_iff_eq.mp heq)⟩
  next => exact h other id' hid

/-- Statuses change, and UUIDs may cease to lead anywhere. -/
theorem Indexed.lose {id : EntryId} {status : Status} (h : m.Indexed)
    (hentries : m'.entries = m.entries ∨ m'.entries = m.entries.modify id ({ · with status }))
    (hlive : ∀ (uuid : Uuid) (id : EntryId), m'.live[uuid]? = some id → m.live[uuid]? = some id) :
    m'.Indexed := by
  intro uuid other hid
  obtain ⟨hlt, huuid⟩ := h uuid other (hlive uuid other hid)
  rcases hentries with hentries | hentries
  · rw [entry, hentries]
    exact ⟨hlt, huuid⟩
  · rw [hentries, Array.size_modify, entry_of_modify hentries]
    refine ⟨hlt, ?_⟩
    split <;> exact huuid

/-- The file of an index has a property, and the UUIDs lead to entries that have them. -/
def Keyed (kept : PagedFile → Prop) (m : MessageIndex) : Prop := kept m.file ∧ m.Indexed

variable {kept : PagedFile → Prop} {α : Type}

variable {held : MessageIndex → Prop}

/-- A procedure on the file keeps what does not ask about the file. -/
theorem keeps_onFile_of (p : Procedure PagedFile α) (h : ∀ m file, held m → held { m with file }) :
    Keeps held (onFile p) :=
  .within fun m hm => ⟨fun _ => True, keeps_true p, trivial, fun file _ => h m file hm⟩

/-- A procedure on the file leaves whatever else there is. -/
theorem keeps_onFile {p : Procedure PagedFile α} (h : Keeps kept p) {other : MessageIndex → Prop}
    (hother : ∀ m file, other m → other { m with file }) :
    Keeps (fun m => kept m.file ∧ other m) (onFile p) :=
  .within fun m hm => ⟨kept, h, hm.1, fun file hfile => ⟨hfile, hother m file hm.2⟩⟩

theorem keeps_onFile_keyed {p : Procedure PagedFile α} (h : Keeps kept p) :
    Keeps (Keyed kept) (onFile p) := keeps_onFile h fun _ _ hm => hm

/-! ## Messages that enter -/

theorem keeps_withdraw (uuid : Uuid) : Keeps (Keyed kept) (withdraw uuid) :=
  keeps_update fun _ h => h

theorem keeps_reserve (uuid : Uuid) : Keeps (Keyed kept) (reserve uuid) := by
  have hnote : Keeps (Keyed kept) (notePending uuid) :=
    keeps_memory.bind fun _ => .ite (keeps_pure _) (.bind (keeps_update fun _ h => h) fun _ =>
      keeps_pure _)
  unfold reserve
  refine hnote.bind fun _ => .ite (keeps_pure _) (keeps_memory.bind fun _ => ?_)
  exact .ite ((keeps_withdraw uuid).bind fun _ => keeps_pure _) (keeps_pure _)

theorem keeps_raiseCount {count : Nat}
    (hwrite : Keeps held (onFile (PagedFile.writeInt32 0 (Int32.ofNat count))))
    (hcount : ∀ m, held m → held { m with count }) : Keeps held (raiseCount count) := by
  unfold raiseCount
  exact keeps_memory.bind fun _ => .ite (hwrite.bind fun _ => keeps_update hcount) (keeps_pure _)

/-- An entry is made, and only at last its UUID leads to it. -/
theorem keeps_publish (hkept : Lasting kept) (uuid : Uuid) (offset : UInt64) (length : UInt32)
    (kind : Kind) : Keeps (Keyed kept) (publish uuid offset length kind) := by
  intro s hs
  generalize hentry : (⟨uuid, offset, length, kind, s.memory.next, .new⟩ : Entry) = e
  have huuid : e.uuid = uuid := by rw [← hentry]
  -- what is true from the moment when the entry is made
  let made (m : MessageIndex) : Prop := m.Indexed ∧ s.memory.entries.size < m.entries.size
    ∧ (m.entry s.memory.entries.size).uuid = uuid
  have hmade : made { s.memory with
      next := s.memory.next + 1, entries := s.memory.entries.push e } := by
    refine ⟨hs.2.push rfl rfl, ?_, (congrArg Entry.uuid (entry_of_push_self rfl)).trans huuid⟩
    exact Nat.lt_of_lt_of_eq (Nat.lt_succ_self _) (Array.size_push ..).symm
  unfold publish takePosition addEntry
  simp only [leads_bind, leads_memory, leads_update, leads_pure, hentry]
  have hwrite : Keeps (fun m => kept m.file ∧ made m) (writeRecord e.toRecord s.memory.next) :=
    keeps_onFile (hkept.writeBytes _ _) fun _ _ h => h
  have hraise : Keeps (fun m => kept m.file ∧ made m) (raiseCount (s.memory.next + 1)) :=
    keeps_raiseCount (keeps_onFile (hkept.writeWord _ _) fun _ _ h => h) fun _ h => h
  refine (hwrite ⟨s.host, { s.memory with
    next := s.memory.next + 1, entries := s.memory.entries.push e }⟩ ⟨hs.1, hmade⟩).mono
    (fun _ t ht => ?_) fun _ _ ht => ⟨ht.1, ht.2.1⟩
  refine (hraise t ht).mono (fun _ u hu => ?_) fun _ _ hu => ⟨hu.1, hu.2.1⟩
  obtain ⟨hfile, hindexed, hlt, huuid⟩ := hu
  exact ⟨hfile, hindexed.insert hlt huuid rfl rfl⟩

/-! ## Messages that move -/

theorem keeps_compareAndSet (id : EntryId) (expected status : Status) :
    Keeps (Keyed kept) (compareAndSet id expected status) :=
  keeps_memory.bind fun _ => .ite (.bind (keeps_update fun _ h =>
    ⟨h.1, h.2.lose (.inr rfl) fun _ _ hid => hid⟩) fun _ => keeps_pure _) (keeps_pure _)

theorem keeps_persistStatus (hkept : Lasting kept) (id : EntryId) :
    Keeps (Keyed kept) (persistStatus id) :=
  keeps_memory.bind fun _ => keeps_onFile_keyed (hkept.writeWord _ _)

theorem keeps_transition (hkept : Lasting kept) (uuid : Uuid) (expected status : Status) :
    Keeps (Keyed kept) (transition uuid expected status) := by
  unfold transition
  refine keeps_memory.bind fun m => ?_
  split
  · exact keeps_pure _
  · exact (keeps_compareAndSet _ _ _).bind fun _ =>
      .ite ((keeps_persistStatus hkept _).bind fun _ => keeps_pure _) (keeps_pure _)

theorem keeps_leaveLive (id : EntryId) : Keeps (Keyed kept) (leaveLive id) := by
  unfold leaveLive
  refine keeps_memory.bind fun m => ?_
  dsimp only
  refine keeps_memory.bind fun _ => .ite (keeps_update fun m' h => ⟨h.1, ?_⟩) (keeps_pure _)
  refine @Indexed.lose _ _ id .new h.2 (.inl rfl) fun uuid other hid => ?_
  rw [Std.TreeMap.getElem?_erase] at hid
  split at hid
  · cases hid
  · exact hid

theorem keeps_finish (hkept : Lasting kept) (uuid : Uuid) : Keeps (Keyed kept) (finish uuid) := by
  unfold finish
  refine (keeps_transition hkept _ _ _).bind fun moved => ?_
  cases moved with
  | none => exact keeps_pure _
  | some id =>
    have hordered : Keeps (Keyed kept) (leaveOrdered id) := by
      unfold leaveOrdered
      refine keeps_memory.bind fun m => ?_
      exact keeps_update fun _ h => h
    exact (keeps_leaveLive id).bind fun _ => hordered.bind fun _ => keeps_pure _

theorem keeps_pop (hkept : Lasting kept) : Keeps (Keyed kept) pop := by
  have hfirst (ids : List EntryId) : Keeps (Keyed kept) (takeFirst ids) := by
    induction ids with
    | nil => exact keeps_pure _
    | cons id rest ih =>
      exact (keeps_compareAndSet _ _ _).bind fun _ =>
        .ite ((keeps_persistStatus hkept _).bind fun _ => keeps_pure _) ih
  exact keeps_memory.bind fun _ => hfirst _

/-! ## Starting -/

theorem keeps_readRecord (hkept : Lasting kept) (position : Nat) :
    Keeps (Keyed kept) (readRecord position) :=
  (keeps_onFile_keyed (hkept.readBytes _ _)).bind fun _ => keeps_ofExcept _

theorem keeps_readCount (hread : Keeps held (onFile (PagedFile.readInt32 0))) :
    Keeps held readCount := by
  intro s hs
  unfold readCount
  simp only [leads_bind, leads_memory, leads_ite, leads_pure, leads_throw]
  split
  · exact hs
  · refine (hread s hs).mono (fun count t ht => ?_) fun _ _ => id
    simp only [ht, ite_self]

theorem keeps_recoverRecord (hkept : Lasting kept) (found : Tally × Std.TreeMap Nat EntryId)
    (position : Nat) : Keeps (Keyed kept) (recoverRecord found position) := by
  obtain ⟨tally, ordered⟩ := found
  unfold recoverRecord
  refine (keeps_readRecord hkept position).bind fun record => (keeps_ofExcept _).bind fun slot => ?_
  cases slot with
  | vacant => exact keeps_pure _
  | tombstone => exact keeps_pure _
  | live entry =>
    intro s hs
    simp only [addEntry, enterLive, leads_bind, leads_memory, leads_ite, leads_update, leads_pure]
    split
    · exact hs
    · exact ⟨hs.1, hs.2.enter rfl rfl⟩

/-- A recovery goes on from nothing, whatever there was before. -/
theorem recover_keyed (hkept : Lasting kept) {s : Session MessageIndex} (hs : kept s.memory.file) :
    recover.Leads s (fun _ t => Keyed kept t.memory) fun _ t => Keyed kept t.memory := by
  have hcount : Keeps (Keyed kept) (onFile (PagedFile.readInt32 0)) :=
    keeps_onFile_keyed ((hkept.readWord _ _).bind fun _ => keeps_pure _)
  unfold recover
  rw [leads_bind, leads_update]
  refine Keeps.bind ?_ (fun _ => (keeps_readCount hcount).bind fun count => ?_) _
    ⟨hs, indexed_of_empty rfl⟩
  · exact (keeps_onFile_keyed hkept.recoverLength).discard
  · refine (Keeps.foldlM (keeps_recoverRecord hkept) _ _).bind fun found => ?_
    exact .bind (keeps_update fun _ h => h) fun _ => keeps_pure _

/-- Everything is discarded, whatever there was before. -/
theorem startEmpty_keyed (hkept : Lasting kept) {s : Session MessageIndex}
    (hs : kept s.memory.file) :
    startEmpty.Leads s (fun _ t => Keyed kept t.memory) fun _ t => Keyed kept t.memory := by
  unfold startEmpty
  rw [leads_bind, leads_update]
  refine Keeps.bind (keeps_onFile_keyed hkept.reset) (fun _ => ?_) _ ⟨hs, indexed_of_empty rfl⟩
  exact (keeps_onFile_keyed (hkept.writeWord _ _)).bind fun _ => keeps_update fun _ h => h

end MessageIndex

end PagedQueue
