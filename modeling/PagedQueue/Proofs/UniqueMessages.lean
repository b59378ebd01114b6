import PagedQueue.Proofs.ExclusiveClients
import PagedQueue.Proofs.StatusCalls
import PagedQueue.Proofs.StoredRecords

/-!
# One message for each UUID

A push is made under a reservation of its UUID, which may have been held for any number of other
calls. Of the messages in the order of creation each is the one to which its UUID leads
(`MessageIndex.Filed`), so no two have the same UUID, and no UUID that is reserved leads anywhere
(`MessageIndex.Distinct`). Every call keeps this, whether it succeeds or fails
(`HeldCall.distinct`), but for one: a recovery brings messages back without a look at the
reservations. As long as none of these messages is reserved when they come back, each UUID has one
message (`uuids_stay_unique`). A reservation from before a recovery lets a second one in
(`recovered_uuid_is_pushed`).
-/

namespace PagedQueue

open Procedure

namespace MessageIndex

variable {m n : MessageIndex} {p : Nat} {id : EntryId} {e : Entry} {uuid : Uuid}
  {s : Session MessageIndex} {α : Type}

/-! ## Messages in their places -/

/-- What stands in the order of creation stands there under its position, which is one of those that
were given out, and is what its UUID leads to. -/
structure Filed (m : MessageIndex) : Prop where
  indexed : m.Indexed
  lt_next : ∀ {p : Nat} {id}, m.ordered[p]? = some id → p < m.next
  lt_size : ∀ {p : Nat} {id}, m.ordered[p]? = some id → id < m.entries.size
  position : ∀ {p : Nat} {id}, m.ordered[p]? = some id → (m.entry id).position = p
  live : ∀ {p : Nat} {id}, m.ordered[p]? = some id → m.live[(m.entry id).uuid]? = some id

namespace Filed

/-- An index that has entered nothing in order is filed if its live map is. -/
theorem of_ordered (hindexed : m.Indexed) (hordered : m.ordered = {}) : m.Filed := by
  have hnone {p : Nat} {id : EntryId} : m.ordered[p]? ≠ some id := by
    rw [hordered, Std.TreeMap.getElem?_emptyc]
    nofun
  exact ⟨hindexed, fun hid => absurd hid hnone, fun hid => absurd hid hnone, fun hid =>
    absurd hid hnone, fun hid => absurd hid hnone⟩

/-- What is filed is told by the entries and the two maps. -/
theorem congr (h : m.Filed) (hentries : n.entries = m.entries) (hlive : n.live = m.live)
    (hordered : n.ordered = m.ordered) (hnext : m.next ≤ n.next) : n.Filed := by
  have hentry (id : EntryId) : n.entry id = m.entry id := by rw [entry, hentries, entry]
  refine ⟨@Indexed.lose _ _ 0 .new h.indexed (.inl hentries) fun _ _ hid => hlive ▸ hid,
    fun hid => ?_, fun hid => ?_, fun hid => ?_, fun hid => ?_⟩ <;> rw [hordered] at hid
  · exact Nat.lt_of_lt_of_le (h.lt_next hid) hnext
  · exact hentries ▸ h.lt_size hid
  · rw [hentry]
    exact h.position hid
  · rw [hentry, hlive]
    exact h.live hid

/-- A status may change. -/
theorem withStatus (h : m.Filed) (id : EntryId) (status : Status) :
    (m.withStatus id status).Filed := by
  have hentry (other : EntryId) :
      ((m.withStatus id status).entry other).position = (m.entry other).position
        ∧ ((m.withStatus id status).entry other).uuid = (m.entry other).uuid := by
    rw [MessageIndex.withStatus, @entry_of_modify m _ id ({ · with status }) rfl]
    split <;> exact ⟨rfl, rfl⟩
  refine ⟨h.indexed.lose (.inr rfl) fun _ _ => (·), fun hid => h.lt_next hid, fun hid => ?_,
    fun hid => ?_, fun hid => ?_⟩
  · rw [MessageIndex.withStatus, Array.size_modify]
    exact h.lt_size hid
  · exact (hentry _).1.trans (h.position hid)
  · rw [(hentry _).2]
    exact h.live hid

/-- An entry is made and leads nowhere yet. -/
theorem make (h : m.Filed) (hentries : n.entries = m.entries.push e) (hlive : n.live = m.live)
    (hordered : n.ordered = m.ordered) (hnext : m.next ≤ n.next) : n.Filed := by
  have hentry {id : EntryId} (hid : id < m.entries.size) : n.entry id = m.entry id :=
    entry_of_push hentries hid
  refine ⟨h.indexed.push hentries hlive, fun hid => ?_, fun hid => ?_, fun hid => ?_, fun hid => ?_⟩
    <;> rw [hordered] at hid
  · exact Nat.lt_of_lt_of_le (h.lt_next hid) hnext
  · rw [hentries, Array.size_push]
    exact Nat.lt_succ_of_lt (h.lt_size hid)
  · rw [hentry (h.lt_size hid)]
    exact h.position hid
  · rw [hentry (h.lt_size hid), hlive]
    exact h.live hid

/-- A message enters whose UUID leads nowhere. -/
theorem enter (h : m.Filed) (hlt : id < m.entries.size) (hposition : (m.entry id).position = p)
    (huuid : (m.entry id).uuid = uuid) (hnew : m.live[uuid]? = none) (hp : p < m.next) :
    Filed { m with live := m.live.insert uuid id, ordered := m.ordered.insert p id } := by
  have hcases {q : Nat} {other : EntryId} (hother : (m.ordered.insert p id)[q]? = some other) :
      p = q ∧ id = other ∨ m.ordered[q]? = some other := by
    rw [Std.TreeMap.getElem?_insert] at hother
    split at hother
    next heq => exact .inl ⟨Nat.compare_eq_eq.mp heq, Option.some.inj hother⟩
    next => exact .inr hother
  refine ⟨h.indexed.insert hlt huuid rfl rfl, fun hid => ?_, fun hid => ?_, fun hid => ?_,
    fun {q other} hid => ?_⟩
  · rcases hcases hid with ⟨rfl, -⟩ | hid
    · exact hp
    · exact h.lt_next hid
  · rcases hcases hid with ⟨-, rfl⟩ | hid
    · exact hlt
    · exact h.lt_size hid
  · rcases hcases hid with ⟨rfl, rfl⟩ | hid
    · exact hposition
    · exact h.position hid
  · show (m.live.insert uuid id)[(m.entry other).uuid]? = some other
    rw [Std.TreeMap.getElem?_insert]
    rcases hcases hid with ⟨-, rfl⟩ | hid
    · rw [huuid, if_pos Std.ReflCmp.compare_self]
    · have hlive := h.live hid
      rw [if_neg]
      · exact hlive
      · intro heq
        rw [← Std.LawfulEqCmp.compare_eq_iff_eq.mp heq, hnew] at hlive
        cases hlive

/-- A message leaves both indexes, if its UUID leads to it. -/
theorem without (h : m.Filed) (hid : m.live[(m.entry id).uuid]? = some id) :
    (m.without id).Filed := by
  have hstays {q : Nat} {other : EntryId}
      (hother : (m.ordered.erase (m.entry id).position)[q]? = some other) :
      m.ordered[q]? = some other ∧ (m.entry id).position ≠ q := by
    rw [Std.TreeMap.getElem?_erase] at hother
    split at hother
    next => cases hother
    next hne => exact ⟨hother, fun heq => hne (Nat.compare_eq_eq.mpr heq)⟩
  refine ⟨@Indexed.lose _ _ 0 .new h.indexed (.inl rfl) fun other id' hother => ?_,
    fun hother => h.lt_next (hstays hother).1, fun hother => h.lt_size (hstays hother).1,
    fun hother => h.position (hstays hother).1, fun {q other} hother => ?_⟩
  · change (m.live.erase (m.entry id).uuid)[other]? = some id' at hother
    rw [Std.TreeMap.getElem?_erase] at hother
    split at hother
    · cases hother
    · exact hother
  · obtain ⟨hother, hne⟩ := hstays hother
    have hlive := h.live hother
    show (m.live.erase (m.entry id).uuid)[(m.entry other).uuid]? = some other
    rw [Std.TreeMap.getElem?_erase, if_neg]
    · exact hlive
    · intro heq
      rw [← Std.LawfulEqCmp.compare_eq_iff_eq.mp heq, hid] at hlive
      cases hlive
      exact hne (h.position hother)

/-- No two messages in the order of creation have the same UUID. -/
theorem unique (h : m.Filed) {q : Nat} {other : EntryId} (hid : m.ordered[p]? = some id)
    (hother : m.ordered[q]? = some other) (huuid : (m.entry id).uuid = (m.entry other).uuid) :
    p = q ∧ id = other := by
  have hlive := h.live hid
  rw [huuid, h.live hother] at hlive
  cases hlive
  exact ⟨(h.position hid).symm.trans (h.position hother), rfl⟩

end Filed

/-- Messages are in their places, and no UUID that is reserved leads to one. -/
structure Distinct (m : MessageIndex) : Prop extends Filed m where
  reserved : ∀ {uuid}, m.pending.contains uuid = true → m.live[uuid]? = none

/-- Nothing is said about one of the UUIDs that are reserved. -/
structure DistinctBut (uuid : Uuid) (m : MessageIndex) : Prop extends Filed m where
  reserved : ∀ {other}, other ≠ uuid → m.pending.contains other = true → m.live[other]? = none

namespace Distinct

/-- Distinct messages are so beside any one of them. -/
theorem but (h : m.Distinct) (uuid : Uuid) : m.DistinctBut uuid := ⟨h.toFiled, fun _ => h.reserved⟩

theorem congr (h : m.Distinct) (hentries : n.entries = m.entries) (hlive : n.live = m.live)
    (hordered : n.ordered = m.ordered) (hpending : n.pending = m.pending)
    (hnext : m.next ≤ n.next) :
    n.Distinct :=
  ⟨h.toFiled.congr hentries hlive hordered hnext, fun huuid => hlive ▸ h.reserved
    (hpending ▸ huuid)⟩

theorem withFile (h : m.Distinct) (file : PagedFile) : Distinct { m with file } :=
  h.congr rfl rfl rfl rfl (Nat.le_refl _)

theorem withStatus (h : m.Distinct) (id : EntryId) (status : Status) :
    (m.withStatus id status).Distinct :=
  ⟨h.toFiled.withStatus id status, h.reserved⟩

/-- An entry may be taken out. -/
theorem without (h : m.Distinct) (hid : m.live[(m.entry id).uuid]? = some id) :
    (m.without id).Distinct := by
  refine ⟨h.toFiled.without hid, fun {other} hother => ?_⟩
  show (m.live.erase (m.entry id).uuid)[other]? = none
  rw [Std.TreeMap.getElem?_erase]
  split
  · rfl
  · exact h.reserved hother

/-- A message was moved to which its UUID leads, and has left both indexes if it is finished. -/
theorem done {c : StatusCall} (h : m.Distinct) (hselected : c.selected? m = some id) :
    (c.done m id).Distinct := by
  have hmoved : (c.moved m id).Distinct := h.withStatus id c.kind.target
  unfold StatusCall.done
  split
  next hfinish =>
    cases c with
    | pop => cases hfinish
    | move k uuid =>
      have hlive := StatusCall.live_of_selected hselected
      refine hmoved.without ?_
      rw [StatusCall.entry_moved hselected, (h.indexed uuid id hlive).2]
      exact hlive
  next => exact hmoved

end Distinct

/-! ## Calls -/

/-- A call that moves a status keeps the messages apart, also where the status cannot be stored. -/
theorem onIndex_distinct (h : s.memory.Distinct) (c : StatusCall) :
    c.onIndex.Leads s (fun _ t => t.memory.Distinct) fun _ t => t.memory.Distinct := by
  refine (c.onIndex_moves h.indexed).mono (fun _ t ht => ?_) fun _ t ht => ?_
  · rcases ht with ⟨-, rfl⟩ | ⟨id, hselected, hdone⟩
    · exact h
    · rw [hdone]
      exact (h.done hselected).withFile _
  · obtain ⟨id, -, hfailed⟩ := ht
    rw [hfailed]
    exact (h.withStatus id c.kind.target).withFile _

/-- A UUID may be withdrawn from those reserved. -/
theorem withdraw_distinct (h : s.memory.DistinctBut uuid) :
    (withdraw uuid).Leads s (fun _ t => t.memory.Distinct) fun _ t => t.memory.Distinct := by
  refine ⟨h.toFiled.congr rfl rfl rfl (Nat.le_refl _), fun {other} hother => ?_⟩
  rw [Std.TreeSet.contains_erase, Bool.and_eq_true] at hother
  refine h.reserved ?_ hother.2
  rintro rfl
  simp at hother

/-- One may be reserved if it is neither live nor reserved. -/
theorem reserve_distinct (h : s.memory.Distinct) (uuid : Uuid) :
    (reserve uuid).Leads s (fun _ t => t.memory.Distinct) fun _ t => t.memory.Distinct := by
  have hnoted : DistinctBut uuid { s.memory with pending := s.memory.pending.insert uuid } := by
    refine ⟨h.toFiled.congr rfl rfl rfl (Nat.le_refl _), fun {other} hne hother => ?_⟩
    rw [Std.TreeSet.contains_insert, Bool.or_eq_true] at hother
    refine h.reserved (hother.resolve_left fun heq => hne (Eq.symm ?_))
    simpa using heq
  unfold reserve notePending
  simp only [leads_bind, leads_memory, leads_ite]
  split
  · exact h
  · simp only [leads_update, leads_pure, Bool.not_true, Bool.false_eq_true, if_false]
    split
    · exact withdraw_distinct
        (s := ⟨s.host, { s.memory with pending := s.memory.pending.insert uuid }⟩) hnoted
    next hfree =>
      refine ⟨hnoted.toFiled, fun {other} hother => ?_⟩
      by_cases hne : other = uuid
      · subst hne
        rwa [Std.TreeMap.contains_eq_isSome_getElem?, Option.not_isSome_iff_eq_none] at hfree
      · exact hnoted.reserved hne hother

/-- A message is about to enter: its entry is made, its position was given out, and its UUID is
reserved. -/
structure Entering (e : Entry) (id : EntryId) (m : MessageIndex) : Prop where
  distinct : m.Distinct
  reserved : m.pending.contains e.uuid = true
  lt_next : e.position < m.next
  lt_size : id < m.entries.size
  entry_eq : m.entry id = e

namespace Entering

theorem withFile (h : m.Entering e id) (file : PagedFile) : Entering e id { m with file } :=
  ⟨h.distinct.withFile file, h.reserved, h.lt_next, h.lt_size, h.entry_eq⟩

/-- An entry may be made under a reserved UUID. -/
theorem make (h : m.Distinct) (hreserved : m.pending.contains e.uuid = true)
    (hposition : e.position = m.next) :
    Entering e m.entries.size { m with next := m.next + 1, entries := m.entries.push e } where
  distinct := ⟨h.toFiled.make rfl rfl rfl (Nat.le_succ _), h.reserved⟩
  reserved := hreserved
  lt_next := Nat.lt_succ_of_le (Nat.le_of_eq hposition)
  lt_size := Nat.lt_of_lt_of_eq (Nat.lt_succ_self _) (Array.size_push ..).symm
  entry_eq := entry_of_push_self rfl

/-- It enters, and its UUID leads to it. -/
theorem enter (h : m.Entering e id) : DistinctBut e.uuid
    { m with live := m.live.insert e.uuid id, ordered := m.ordered.insert e.position id } := by
  refine ⟨h.distinct.toFiled.enter h.lt_size (by rw [h.entry_eq]) (by rw [h.entry_eq])
    (h.distinct.reserved h.reserved) h.lt_next, fun {other} hne hother => ?_⟩
  rw [Std.TreeMap.getElem?_insert, if_neg]
  · exact h.distinct.reserved hother
  · exact fun heq => hne (Std.LawfulEqCmp.compare_eq_iff_eq.mp heq).symm

end Entering

/-- What is published is distinct from every other live message. -/
theorem publish_distinctBut (h : s.memory.Distinct) (hheld : s.memory.pending.contains uuid = true)
    (offset : UInt64) (length : UInt32) (kind : Kind) :
    (publish uuid offset length kind).Leads s (fun _ t => t.memory.DistinctBut uuid)
      fun _ t => t.memory.DistinctBut uuid := by
  generalize hentry : (⟨uuid, offset, length, kind, s.memory.next, .new⟩ : Entry) = e
  have huuid : e.uuid = uuid := by rw [← hentry]
  have hposition : e.position = s.memory.next := by rw [← hentry]
  have hmade := Entering.make h (huuid ▸ hheld) hposition
  generalize hid : s.memory.entries.size = id at hmade
  have hfailed {m : MessageIndex} (hm : m.Entering e id) : m.DistinctBut uuid :=
    hm.distinct.but uuid
  have hwrite : Keeps (Entering e id) (writeRecord e.toRecord s.memory.next) :=
    keeps_onFile_of _ fun _ file hm => hm.withFile file
  have hraise : Keeps (Entering e id) (raiseCount (s.memory.next + 1)) :=
    keeps_raiseCount (keeps_onFile_of _ fun _ file hm => hm.withFile file) fun m hm =>
      ⟨hm.distinct.congr rfl rfl rfl rfl (Nat.le_refl _), hm.reserved, hm.lt_next, hm.lt_size,
        hm.entry_eq⟩
  unfold publish takePosition addEntry
  simp only [leads_bind, leads_memory, leads_update, leads_pure, hentry, hid]
  refine (hwrite ⟨s.host, { s.memory with
    next := s.memory.next + 1, entries := s.memory.entries.push e }⟩ hmade).mono (fun _ t ht => ?_)
    fun _ _ => hfailed
  refine (hraise t ht).mono (fun _ u hu => ?_) fun _ _ => hfailed
  simp only [enterLive, enterOrdered, leads_update]
  rw [← huuid, ← hposition]
  exact hu.enter

/-- A message enters under a reservation, which ends then. -/
theorem push_distinct (h : s.memory.Distinct) (hheld : s.memory.pending.contains uuid = true)
    (offset : UInt64) (length : UInt32) (kind : Kind) :
    (push uuid offset length kind).Leads s (fun _ t => t.memory.Distinct) fun _ t =>
      t.memory.Distinct := by
  unfold push
  rw [leads_tryFinally]
  exact (publish_distinctBut h hheld offset length kind).mono
    (fun _ _ ht => (withdraw_distinct ht).mono (fun _ _ => id) fun _ _ => id)
    fun _ _ ht => (withdraw_distinct ht).mono (fun _ _ => id) fun _ _ => id

/-- There are no messages. -/
def Cleared (m : MessageIndex) : Prop := m.live = {} ∧ m.ordered = {}

namespace Cleared

/-- Cleared indexes are filed. -/
theorem filed (h : m.Cleared) : m.Filed := .of_ordered (indexed_of_empty h.1) h.2

theorem distinct (h : m.Cleared) : m.Distinct :=
  ⟨h.filed, fun _ => by rw [h.1, Std.TreeMap.getElem?_emptyc]⟩

/-- The files are none of the indexes. -/
theorem keeps_onFile (p : Procedure PagedFile α) : Keeps Cleared (onFile p) :=
  keeps_onFile_of p fun _ _ h => h

end Cleared

/-- Started from nothing, an index has no messages. -/
theorem startEmpty_distinct (s : Session MessageIndex) :
    startEmpty.Leads s (fun _ t => t.memory.Distinct) fun _ t => t.memory.Distinct := by
  have hrest : Keeps Cleared (do
      onFile PagedFile.reset
      onFile (PagedFile.writeInt32 0 0)
      update fun s => { s with count := 0, next := 0 }) :=
    (Cleared.keeps_onFile _).bind fun _ => (Cleared.keeps_onFile _).bind fun _ => keeps_update
      fun _ h => h
  unfold startEmpty
  rw [leads_bind, leads_update]
  exact (hrest ⟨s.host, { s.memory with live := {}, ordered := {} }⟩ ⟨rfl, rfl⟩).mono
    (fun _ _ => Cleared.distinct) fun _ _ => Cleared.distinct

/-- A recovery is under way and has found these messages among the first `count`, of which none is
in the order of creation yet. -/
structure Recovering (count : Nat) (ordered : Std.TreeMap Nat EntryId) (m : MessageIndex) :
    Prop where
  filed : Filed { m with ordered, next := count }
  unordered : m.ordered = {}

/-- Indexes under recovery have entered nothing in order. -/
theorem Recovering.filed_now {count : Nat} {ordered : Std.TreeMap Nat EntryId}
    (h : Recovering count ordered m) : m.Filed := .of_ordered h.filed.indexed h.unordered

/-- A record that is recovered leaves the indexes filed, also where it is refused. -/
theorem recoverRecord_recovering {count : Nat} {found : Tally × Std.TreeMap Nat EntryId}
    (h : Recovering count found.2 s.memory) (hp : p < count) :
    (recoverRecord found p).Leads s (fun found' t => Recovering count found'.2 t.memory)
      fun _ t => t.memory.Filed := by
  have hread : Keeps (Recovering count found.2) (readRecord p) :=
    (keeps_onFile_of _ fun _ _ hm =>
    ⟨hm.filed.congr rfl rfl rfl (Nat.le_refl _), hm.unordered⟩).bind
      fun _ => keeps_ofExcept _
  obtain ⟨tally, ordered⟩ := found
  unfold recoverRecord
  rw [leads_bind]
  refine (hread s h).mono (fun record t ht => ?_) fun _ _ => Recovering.filed_now
  rw [leads_bind]
  rcases Slot.ofRecord_cases record p with ⟨-, -, heq⟩ | ⟨-, -, heq⟩ | ⟨-, -, heq⟩ | ⟨-, fault, heq⟩
    <;> rw [heq]
  · exact ht
  · exact ht
  · rw [leads_ofExcept_ok]
    generalize hentry : record.toEntry p = e
    have hposition : e.position = p := by rw [← hentry]; rfl
    simp only [addEntry, enterLive, leads_bind, leads_memory, leads_ite, leads_update, leads_pure]
    split
    · exact ht
    next hfree =>
      rw [Std.TreeMap.contains_eq_isSome_getElem?, Option.not_isSome_iff_eq_none] at hfree
      have hmade := ht.filed.make (n := { t.memory with
        ordered, next := count, entries := t.memory.entries.push e }) rfl rfl rfl (Nat.le_refl _)
      have hself :
          entry { t.memory with ordered, next := count, entries := t.memory.entries.push e }
          t.memory.entries.size = e := entry_of_push_self rfl
      refine ⟨hmade.enter ?_ (by rw [hself, hposition]) (by rw [hself]) hfree hp, ht.unordered⟩
      exact Nat.lt_of_lt_of_eq (Nat.lt_succ_self _) (Array.size_push ..).symm
  · exact ht.filed_now

/-- Whatever comes of a recovery, the messages are in their places. -/
theorem recover_filed (s : Session MessageIndex) :
    recover.Leads s (fun _ t => t.memory.Filed) fun _ t => t.memory.Filed := by
  unfold recover
  simp only [leads_bind, leads_update, leads_pure]
  refine ((Cleared.keeps_onFile _).discard ⟨s.host, { s.memory with live := {}, ordered := {} }⟩
    ⟨rfl, rfl⟩).mono (fun _ t ht => ?_) fun _ _ => Cleared.filed
  refine (keeps_readCount (Cleared.keeps_onFile _) t ht).mono
    (fun count u hu => ?_) fun _ _ => Cleared.filed
  refine (leads_foldlM_range recoverRecord (fun _ found v => Recovering count found.2 v.memory)
    ⟨.of_ordered (indexed_of_empty hu.1) rfl, hu.2⟩ fun p found v hp hv =>
    recoverRecord_recovering hv hp).mono
    (fun found v hv => hv.filed.congr rfl rfl rfl (Nat.le_refl _)) fun _ _ => id

end MessageIndex

/-! ## Runs -/

/-- What is asked of an index by one who may hold reservations over any number of other calls. -/
inductive HeldCall where
  | startEmpty
  | recover
  | reserve (uuid : Uuid)
  /-- A reservation ends without a push. -/
  | withdraw (uuid : Uuid)
  /-- A message is pushed under the reservation of its UUID. -/
  | push (draft : Draft)
  | change (call : StatusCall)

namespace HeldCall

/-- What the index does. -/
def procedure : HeldCall → Procedure MessageIndex Unit
  | startEmpty => MessageIndex.startEmpty
  | recover => discard MessageIndex.recover
  | reserve uuid => discard (MessageIndex.reserve uuid)
  | withdraw uuid => MessageIndex.withdraw uuid
  | push d => discard (MessageIndex.push d.uuid d.offset d.length d.kind)
  | change c => discard c.onIndex

/-- The UUID whose reservation the call takes up. -/
def held? : HeldCall → Option Uuid
  | withdraw uuid => some uuid
  | push d => some d.uuid
  | _ => none

/-- A recovery brings no message back whose UUID is reserved. -/
def Timely (c : HeldCall) (after : Except Fault Unit × Session MessageIndex) : Prop :=
  c = recover → ∀ uuid, after.2.memory.pending.contains uuid = true →
  after.2.memory.live[uuid]? = none

/-- Each call keeps the messages apart, whatever comes of it. -/
theorem distinct {s : Session MessageIndex} (h : s.memory.Distinct) (c : HeldCall)
    (hheld : ∀ uuid, c.held? = some uuid → s.memory.pending.contains uuid = true)
    (htimely : c.Timely (c.procedure.outcome s)) : (c.procedure.outcome s).2.memory.Distinct := by
  have hdiscard {α : Type} {p : Procedure MessageIndex α} {kept : MessageIndex → Prop}
      (hp : p.Leads s (fun _ t => kept t.memory) fun _ t => kept t.memory) :
      kept ((discard p).outcome s).2.memory := by
    have hleads : (discard p).Leads s (fun _ t => kept t.memory) fun _ t => kept t.memory := by
      rwa [leads_discard]
    exact hleads.outcome
  cases c with
  | startEmpty => exact (MessageIndex.startEmpty_distinct s).outcome
  | recover =>
    have hfiled : ((discard MessageIndex.recover).outcome s).2.memory.Filed :=
      hdiscard (MessageIndex.recover_filed s)
    exact ⟨hfiled, fun huuid => htimely rfl _ huuid⟩
  | reserve uuid => exact hdiscard (MessageIndex.reserve_distinct h uuid)
  | withdraw uuid => exact (MessageIndex.withdraw_distinct (h.but uuid)).outcome
  | push d => exact hdiscard (MessageIndex.push_distinct h (hheld _ rfl) d.offset d.length d.kind)
  | change c => exact hdiscard (MessageIndex.onIndex_distinct h c)

end HeldCall

/-- What an index becomes by calls that go as is `allowed`, one after another. A reservation is
there to be taken up from the call that makes it until one call ends it. -/
inductive MessageIndex.Calls (allowed : HeldCall → Except Fault Unit × Session MessageIndex → Prop)
    (s : Session MessageIndex) : Session MessageIndex → Prop
  | none : Calls allowed s s
  | call {t : Session MessageIndex} (before : Calls allowed s t) (c : HeldCall)
    (hheld : ∀ uuid, c.held? = some uuid → t.memory.pending.contains uuid = true)
    (hallowed : allowed c (c.procedure.outcome t)) : Calls allowed s (c.procedure.outcome t).2

/-- Messages stay distinct through all timely calls. -/
theorem MessageIndex.Calls.distinct {s t : Session MessageIndex} (h : Calls HeldCall.Timely s t)
    (hs : s.memory.Distinct) : t.memory.Distinct := by
  induction h with
  | none => exact hs
  | call _ c hheld htimely ih => exact c.distinct ih hheld htimely

/-- An index is opened on any disk, and calls follow one another in any order, with any number of
reservations held meanwhile; whatever fails, each message in the order of creation stands there
under its position and is the one to which its UUID leads, and no two of them have the same UUID.
This needs that no message comes back in a recovery while its UUID is reserved. -/
theorem uuids_stay_unique {host : Host} {file : PagedFile} {t : Session MessageIndex}
    (h : MessageIndex.Calls HeldCall.Timely ⟨host, { file }⟩ t) :
    (∀ (p : Nat) (id : EntryId), t.memory.ordered[p]? = some id →
      (t.memory.entry id).position = p ∧ t.memory.live[(t.memory.entry id).uuid]? = some id)
    ∧ ∀ (p q : Nat) (id id' : EntryId), t.memory.ordered[p]? = some id →
      t.memory.ordered[q]? = some id' → (t.memory.entry id).uuid = (t.memory.entry id').uuid →
      p = q ∧ id = id' := by
  have hdistinct : t.memory.Distinct := h.distinct
    ⟨.of_ordered (MessageIndex.indexed_of_empty rfl) rfl, fun _ => Std.TreeMap.getElem?_emptyc⟩
  exact ⟨fun p id hid => ⟨hdistinct.position hid, hdistinct.live hid⟩,
    fun _ _ _ _ hid hid' => hdistinct.unique hid hid'⟩

/-- An index that is opened where a message was pushed before. -/
def openedAnew : Session MessageIndex :=
  ⟨((do MessageIndex.startEmpty; discard (IndexCall.procedure (.push ⟨⟨1⟩, 0, 0, .text⟩)) :
      Procedure MessageIndex Unit).outcome emptyDirectory).2.host,
    { file := emptyDirectory.memory.file }⟩

/-- A UUID is reserved, another message comes back and is taken, and then the first one is
pushed. -/
theorem uuids_stay_unique_pushedAfter : ∃ t, MessageIndex.Calls HeldCall.Timely openedAnew t
    ∧ t.memory.ordered[0]? = some 0 ∧ t.memory.ordered[1]? = some 1
    ∧ (t.memory.entry 0).status = .locked ∧ (t.memory.entry 1).status = .new
    ∧ (t.memory.entry 0).uuid ≠ (t.memory.entry 1).uuid := by
  let reserved := ((HeldCall.reserve ⟨2⟩).procedure.outcome openedAnew).2
  let recovered := (HeldCall.recover.procedure.outcome reserved).2
  let taken := ((HeldCall.change .pop).procedure.outcome recovered).2
  let pushed := ((HeldCall.push ⟨⟨2⟩, 0, 0, .text⟩).procedure.outcome taken).2
  have hrecovered : recovered.memory.pending.toList = [⟨2⟩]
      ∧ recovered.memory.live[(⟨2⟩ : Uuid)]? = none := by
    decide +kernel
  have hends : taken.memory.pending.contains ⟨2⟩ = true ∧ pushed.memory.ordered[0]? = some 0
      ∧ pushed.memory.ordered[1]? = some 1 ∧ (pushed.memory.entry 0).status = .locked
      ∧ (pushed.memory.entry 1).status = .new := by
    decide +kernel
  obtain ⟨hheld, hfirst, hsecond, hlocked, hnew⟩ := hends
  have htimely : HeldCall.Timely .recover (HeldCall.recover.procedure.outcome reserved) := by
    intro _ uuid huuid
    rw [← Std.TreeSet.mem_iff_contains, ← Std.TreeSet.mem_toList] at huuid
    obtain rfl := List.mem_singleton.mp (hrecovered.1 ▸ huuid)
    exact hrecovered.2
  have hcalls : MessageIndex.Calls HeldCall.Timely openedAnew pushed :=
    (((MessageIndex.Calls.none.call (.reserve ⟨2⟩) nofun nofun).call .recover nofun htimely).call
      (.change .pop) nofun nofun).call (.push ⟨⟨2⟩, 0, 0, .text⟩)
      (by rintro _ ⟨⟩; exact hheld) nofun
  refine ⟨pushed, hcalls, hfirst, hsecond, hlocked, hnew, fun huuid => ?_⟩
  exact absurd ((uuids_stay_unique hcalls).2 0 1 0 1 hfirst hsecond huuid).1 (by decide)

/-- A UUID is reserved, its message comes back, and then it is pushed once more. All of it goes
well, and two messages wait under one UUID, which leads to the second one only. -/
theorem recovered_uuid_is_pushed : ∃ t,
    MessageIndex.Calls (fun _ after => after.1.isOk = true) openedAnew t
    ∧ t.memory.ordered[0]? = some 0 ∧ t.memory.ordered[1]? = some 1
    ∧ (t.memory.entry 0).status = .new ∧ (t.memory.entry 1).status = .new
    ∧ (t.memory.entry 0).uuid = (t.memory.entry 1).uuid
    ∧ t.memory.live[(t.memory.entry 0).uuid]? = some 1 := by
  let reserved := (HeldCall.reserve ⟨1⟩).procedure.outcome openedAnew
  let recovered := HeldCall.recover.procedure.outcome reserved.2
  let pushed := (HeldCall.push ⟨⟨1⟩, 0, 0, .text⟩).procedure.outcome recovered.2
  have hends : (reserved.1.isOk = true ∧ recovered.1.isOk = true ∧ pushed.1.isOk = true
        ∧ recovered.2.memory.pending.contains ⟨1⟩ = true)
      ∧ pushed.2.memory.ordered[0]? = some 0 ∧ pushed.2.memory.ordered[1]? = some 1
      ∧ (pushed.2.memory.entry 0).status = .new ∧ (pushed.2.memory.entry 1).status = .new
      ∧ (pushed.2.memory.entry 0).uuid = (pushed.2.memory.entry 1).uuid
      ∧ pushed.2.memory.live[(pushed.2.memory.entry 0).uuid]? = some 1 := by
    decide +kernel
  obtain ⟨⟨hreserved, hrecovered, hpushed, hheld⟩, hends⟩ := hends
  refine ⟨pushed.2, ?_, hends⟩
  exact ((MessageIndex.Calls.none.call (.reserve ⟨1⟩) nofun hreserved).call .recover nofun
    hrecovered).call (.push ⟨⟨1⟩, 0, 0, .text⟩) (by rintro _ ⟨⟩; exact hheld) hpushed

end PagedQueue
