import PagedQueue.Proofs.StoredLedger

/-!
# The steps of the index

An index carries a list of messages if its pages hold their records and its memory the entries of
those in the queue (`Carries`). Each operation takes the list it carries to another one (`Becomes`),
and on the way the pages hold the records of the one or of the other: what decides is a single copy,
of the count (`publish_ensures`) or of a status (`persistStatus_ensures`), and the count and a
status never lie over the border of two pages.
-/

namespace PagedQueue

open Procedure
open Disk (Apart Confined Records)
open PageStore (Ready Access Touches Nowhere WritesAtOnce)

namespace PageStore

variable {before after before' after' : Disk → Prop} {touched written : Nat → Prop}
  {s t u : Session PageStore}

/-- The disk on the way from one state of the pages to another: it stands as before or as after, and
nothing happens outside of the directory. -/
def OnTheWay (before after : Disk → Prop) (s : Session PageStore) (d : Disk) : Prop :=
  Apart s.memory.directory s.host.disk d ∧ (before d ∨ after d)

/-- The pages turn from one state to another. -/
abbrev Turns (before after : Disk → Prop) (s t : Session PageStore) : Prop :=
  Access (OnTheWay before after s) s t

/-- One turn after another is a turn if both pass over the same disks. -/
theorem Turns.comp (h : Turns before after s t) (h' : Turns before' after' t u)
    (hway : ∀ d, before' d ∨ after' d → before d ∨ after d) : Turns before after s u := by
  refine ⟨h.same.trans h'.same, h'.sound, h'.coherent, h.trail.trans (h'.trail.mono ?_)⟩
  intro d hd
  obtain ⟨hapart, hd⟩ := hd
  rw [h.same.directory] at hapart
  exact ⟨h.last.1.trans hapart, hway d hd⟩

/-- What touches some bytes turns a disk if each disk on the way is allowed for. -/
theorem Touches.turns (h : Touches touched written s t)
    (hway : ∀ d, Confined s.memory.directory s.memory.pageSize touched written s.host.disk d →
      before d ∨ after d) : Turns before after s t :=
  Access.mono h fun d hd => ⟨.of_confined hd, hway d hd⟩

theorem Turns.of_atOnce {start : Nat} {bytes : List UInt8}
    (h : Access (WritesAtOnce touched start bytes s) s t)
    (hbefore : ∀ d, Confined s.memory.directory s.memory.pageSize touched
      (InRange start bytes.length) s.host.disk d →
      d.space s.memory.directory s.memory.pageSize = contents s → before d)
    (hafter : ∀ d, Confined s.memory.directory s.memory.pageSize touched
      (InRange start bytes.length) s.host.disk d →
      d.space s.memory.directory s.memory.pageSize = (contents s).write start bytes → after d) :
    Turns before after s t := by
  refine Access.mono h fun d hd => ?_
  obtain ⟨hc, hold | hnew⟩ := hd
  · exact ⟨.of_confined hc, .inl (hbefore d hc hold)⟩
  · exact ⟨.of_confined hc, .inr (hafter d hc hnew)⟩

end PageStore

open PageStore (Turns)

namespace MessageIndex

variable {m : MessageIndex} {s t u : Session MessageIndex} {items items' : Items}
  {layout layout' : Nat → Nat} {p : Nat} {i : Item} {id : EntryId} {uuid : Uuid}

/-! ## What is found in the memory of an index -/

/-- The message at a position is in the queue, and this is its entry. -/
structure Stands (m : MessageIndex) (items : Items) (layout : Nat → Nat) (p : Nat) (i : Item)
    (id : EntryId) : Prop where
  item : items[p]? = some i
  isLive : i.status.isLive = true
  ordered : m.ordered[p]? = some id
  entry : m.entry id = i.toEntry p (layout p)

/-- Each live item has an entry at its place. -/
theorem Holds.exists_stands (h : Holds m (items.held layout)) (hp : items[p]? = some i)
    (hlive : i.status.isLive = true) : ∃ id, Stands m items layout p i id := by
  obtain ⟨id, hid, hentry⟩ := h.exists_id (Items.held_of_live hp hlive)
  exact ⟨id, hp, hlive, hid, hentry⟩

/-- Each entry in order stands for an item. -/
theorem Holds.stands (h : Holds m (items.held layout)) (hid : m.ordered[p]? = some id) :
    ∃ i, Stands m items layout p i id := by
  obtain ⟨i, hp, hlive, hentry⟩ := Items.held_eq_some_iff.mp (h.held_of_ordered hid)
  exact ⟨i, hp, hlive, hid, hentry.symm⟩

/-- The index finds the message of a UUID exactly if the list has it. -/
theorem Holds.find?_cases (h : Holds m (items.held layout)) (hwell : items.WellFormed)
    (uuid : Uuid) :
    (∃ p i id, items.find? uuid = some p ∧ m.find? uuid = some id ∧ i.uuid = uuid
      ∧ Stands m items layout p i id)
    ∨ items.find? uuid = none ∧ m.find? uuid = none := by
  cases hfind : items.find? uuid with
  | some p =>
    obtain ⟨i, hp, hlive, huuid⟩ := hwell.find?_eq_some_iff.mp hfind
    obtain ⟨id, hstands⟩ := h.exists_stands hp hlive
    refine .inl ⟨p, i, id, rfl, h.find?_eq_some_iff.mpr ⟨p, hstands.ordered, ?_⟩, huuid, hstands⟩
    rw [hstands.entry]
    exact huuid
  | none =>
    refine .inr ⟨rfl, h.find?_eq_none fun p e hp => ?_⟩
    obtain ⟨i, hi, hlive, rfl⟩ := Items.held_eq_some_iff.mp hp
    exact Items.find?_eq_none_iff.mp hfind p i hi hlive

/-- The index finds the oldest message that waits exactly if the list has one. -/
theorem Holds.oldestNew?_cases (h : Holds m (items.held layout)) :
    (∃ p i id, items.oldest? = some p ∧ m.oldestNew? = some id ∧ i.status = .new
      ∧ Stands m items layout p i id)
    ∨ items.oldest? = none ∧ m.oldestNew? = none := by
  have hbound {p : Nat} {e : Entry} (hp : items.held layout p = some e) : p < items.length := by
    obtain ⟨i, hi, -⟩ := Items.held_eq_some_iff.mp hp
    exact Items.lt_length hi
  have hwaits (q : Nat) : (m.ordered[q]?.any fun id => decide ((m.entry id).status = .new)) = true
      ↔ ∃ j, items[q]? = some j ∧ j.status = .new := by
    rw [Option.any_eq_true_iff_get]
    constructor
    · intro hand
      obtain ⟨hsome, hnew⟩ := hand
      obtain ⟨j, hj⟩ := h.stands (Option.some_get hsome).symm
      have hstatus := of_decide_eq_true hnew
      rw [hj.entry] at hstatus
      exact ⟨j, hj.item, hstatus⟩
    · intro hand
      obtain ⟨j, hj, hnew⟩ := hand
      obtain ⟨id, hstands⟩ := h.exists_stands hj (by rw [hnew]; rfl)
      have hget : m.ordered[q]? = some id := hstands.ordered
      refine ⟨by rw [hget]; rfl, decide_eq_true ?_⟩
      simp only [hget, Option.get_some, hstands.entry]
      exact hnew
  rw [oldestNew?, h.values_eq hbound, List.find?_filterMap]
  cases holdest : items.oldest? with
  | some p =>
    obtain ⟨⟨i, hp, hnew⟩, hbefore⟩ := Items.oldest?_eq_some_iff.mp holdest
    obtain ⟨id, hstands⟩ := h.exists_stands hp (by rw [hnew]; rfl)
    -- no message before the oldest one waits, so the search passes all of them
    have hfirst : (List.range items.length).find? (fun q =>
        m.ordered[q]?.any fun id => decide ((m.entry id).status = .new)) = some p := by
      refine List.find?_range_eq_some.mpr ⟨(hwaits p).mpr ⟨i, hp, hnew⟩,
        List.mem_range.mpr (Items.lt_length hp), fun q hq => ?_⟩
      rw [Bool.not_eq_true', Bool.eq_false_iff]
      intro hwaiting
      obtain ⟨j, hj, hjnew⟩ := (hwaits q).mp hwaiting
      exact hbefore q hq j hj hjnew
    refine .inl ⟨p, i, id, rfl, ?_, hnew, hstands⟩
    rw [hfirst]
    exact hstands.ordered
  | none =>
    have hnone : (List.range items.length).find? (fun q =>
        m.ordered[q]?.any fun id => decide ((m.entry id).status = .new)) = none := by
      refine List.find?_eq_none.mpr fun q _ hwaiting => ?_
      obtain ⟨j, hj, hjnew⟩ := (hwaits q).mp hwaiting
      exact Items.oldest?_eq_none_iff.mp holdest q j hj hjnew
    refine .inr ⟨rfl, ?_⟩
    rw [hnone]
    rfl

/-- The size is the number of live items. -/
theorem Holds.size_eq_countP (h : Holds m (items.held layout)) :
    m.size = items.countP (·.status.isLive) := by
  have hbound {p : Nat} {e : Entry} (hp : items.held layout p = some e) : p < items.length := by
    obtain ⟨i, hi, -⟩ := Items.held_eq_some_iff.mp hp
    exact Items.lt_length hi
  rw [h.size_eq hbound, Items.countP_eq_countP_range]
  refine List.countP_congr fun p hp => ?_
  rw [Items.held, Option.isSome_map]
  cases items[p]? with
  | none => rfl
  | some i => by_cases hlive : i.status.isLive = true <;> simp [hlive]

/-! ## Indexes that carry a list -/

/-- The pages of an index hold the records of the messages. -/
def Holding (s : Session MessageIndex) (items : Items) (layout : Nat → Nat) (d : Disk) : Prop :=
  d.Records s.memory.file.store.directory s.memory.file.store.pageSize items layout

/-- The index carries the list: its pages hold the records, and its memory holds what is in the
queue. -/
structure Carries (items : Items) (layout : Nat → Nat) (s : Session MessageIndex) : Prop where
  ready : Ready (pagesOf s)
  records : Holding s items layout s.host.disk
  holds : Holds s.memory (items.held layout)
  count_eq : s.memory.count = items.length
  next_eq : s.memory.next = items.length

/-- The index, which carried one list, carries another one, and at no time the pages held anything
but the records of the one or of the other. -/
structure Becomes (items : Items) (layout : Nat → Nat) (items' : Items) (layout' : Nat → Nat)
    (s t : Session MessageIndex) : Prop where
  turns : Turns (Holding s items layout) (Holding s items' layout') (pagesOf s) (pagesOf t)
  carries : Carries items' layout' t
  pending_eq : t.memory.pending = s.memory.pending

/-- Once there is a message, there is a page. -/
theorem Carries.reachOf_ne_zero (h : Carries items layout s) (hne : items ≠ []) :
    reachOf s ≠ 0 := by
  intro hzero
  have hfits := h.records.fits hne
  rw [reachOf] at hzero
  rw [hzero] at hfits
  exact absurd hfits (by simp [Record.place, Record.countSize])

theorem Carries.openable (h : Carries items layout s) : IsOpenable s := h.records.tidy.toOpenable

/-! ## Reservations -/

theorem contains_insert_pending (pending : Std.TreeSet Uuid) (uuid other : Uuid) :
    (pending.insert uuid).contains other = (decide (uuid = other) || pending.contains other) := by
  rw [Std.TreeSet.contains_insert, Bool.eq_iff_iff]
  simp

theorem contains_erase_pending (pending : Std.TreeSet Uuid) (uuid other : Uuid) :
    (pending.erase uuid).contains other = (decide (uuid ≠ other) && pending.contains other) := by
  rw [Std.TreeSet.contains_erase, Bool.eq_iff_iff]
  simp

/-- A UUID that is not being pushed is reserved if no message in the queue has it. -/
theorem reserve_ensures (hidle : s.memory.pending.contains uuid = false) :
    (reserve uuid).Ensures s fun possible t => possible = !s.memory.live.contains uuid
      ∧ ∃ pending : Std.TreeSet Uuid, t = ⟨s.host, { s.memory with pending }⟩
        ∧ ∀ other, pending.contains other
          = (possible && decide (uuid = other) || s.memory.pending.contains other) := by
  unfold reserve notePending withdraw Ensures
  simp only [leads_bind, leads_memory, leads_ite, leads_update, leads_pure, hidle,
    Bool.false_eq_true, if_false, Bool.not_true]
  by_cases hknown : s.memory.live.contains uuid = true
  · rw [if_pos hknown]
    refine ⟨by rw [hknown]; rfl, _, rfl, fun other => ?_⟩
    rw [contains_erase_pending, contains_insert_pending]
    by_cases hother : uuid = other
    · subst hother
      simp [hidle]
    · simp [hother]
  · rw [if_neg hknown]
    have hfree : s.memory.live.contains uuid = false := Bool.eq_false_iff.mpr hknown
    refine ⟨by rw [hfree]; rfl, _, rfl, fun other => ?_⟩
    rw [contains_insert_pending, Bool.true_and]

/-! ## A message comes in -/

private theorem place_lt {n o : Nat} (hroom : n < 0x80000000)
    (ho : InRange (Record.place n) Record.size o) : o < 0x10000000000000000 := by
  obtain ⟨-, hlt⟩ := ho
  simp only [Record.place, Record.countSize, Record.size] at hlt
  omega

/-- A record behind the others is complete before it counts. -/
private theorem wrote_record {s t : Session PagedFile} {directory : Path} {pageSize : Nat}
    {r : Record}
    (hdirectory : s.memory.store.directory = directory) (hsize : s.memory.store.pageSize = pageSize)
    (hpos : 0 < pageSize) (hroom : items.length < 0x80000000)
    (hrecords : s.host.disk.Records directory pageSize items layout)
    (ht : PagedFile.Wrote (Record.place items.length) r.encode s t) :
    (∀ after, Turns (fun d => d.Records directory pageSize items layout) after
        (s.part PagedFile.store) (t.part PagedFile.store))
      ∧ t.host.disk.Records directory pageSize items layout
      ∧ (t.host.disk.space directory pageSize).recordAt items.length = r
      ∧ Record.place (items.length + 1) ≤ t.host.disk.reach directory pageSize := by
  subst hdirectory hsize
  obtain ⟨htouches, hbytes, hpages, -⟩ := ht
  rw [Record.length_encode] at htouches hpages
  -- while the record is written, the records that count are all before it
  have hrecords' (d : Disk) (hd : Confined _ _ (InRange (Record.place items.length) Record.size)
      (InRange (Record.place items.length) Record.size) s.host.disk d) :
      d.Records s.memory.store.directory s.memory.store.pageSize items layout :=
    hrecords.confined hd (fun o ho => place_lt hroom ho) fun o ho =>
      hd.space_eq o fun hin => Nat.not_lt_of_le hin.1 ho
  have hlast := hrecords' t.host.disk htouches.last
  have hspace : t.host.disk.space s.memory.store.directory s.memory.store.pageSize
      = (PagedFile.bytesOf s).write (Record.place items.length) r.encode := by
    rw [← hbytes, PagedFile.bytesOf, PageStore.contents, htouches.same.directory,
      htouches.same.pageSize]
    rfl
  refine ⟨fun _ => htouches.turns fun d hd => .inl (hrecords' d hd), hlast, ?_, ?_⟩
  · rw [hspace, ByteSpace.recordAt_write]
  · -- the page of the last byte of the record is there
    have hreach := hlast.tidy.lt_reach hpos (hpages (Record.place items.length + 35) ⟨by omega, by
      simp only [Record.size]
      omega⟩)
    simp only [Record.place, Record.size] at hreach ⊢
    omega

/-- The count is raised over a complete record in one step. -/
private theorem raised_count {s t : Session PagedFile} {directory : Path} {pageSize offset : Nat}
    (hdirectory : s.memory.store.directory = directory) (hsize : s.memory.store.pageSize = pageSize)
    (hpage : 4 ≤ pageSize) (hoffset : offset < 0x8000000000000000)
    (hroom : items.length + 1 < 0x80000000)
    (hrecords : s.host.disk.Records directory pageSize items layout)
    (hrecord : (s.host.disk.space directory pageSize).recordAt items.length
      = (i.toEntry items.length offset).toRecord)
    (hfits : Record.place (items.length + 1) ≤ s.host.disk.reach directory pageSize)
    (ht : PagedFile.Wrote 0 (encodeInt32 (.ofNat (items.length + 1))) s t)
    (hatOnce : InOnePage s.memory.store.pageSize 0 4 → Access (WritesAtOnce (InRange 0 4) 0
      (encodeInt32 (.ofNat (items.length + 1))) (s.part PagedFile.store))
      (s.part PagedFile.store) (t.part PagedFile.store)) :
    Turns (fun d => d.Records directory pageSize items layout)
        (fun d => d.Records directory pageSize (items ++ [i])
          (Function.update layout items.length offset))
        (s.part PagedFile.store) (t.part PagedFile.store)
      ∧ t.host.disk.Records directory pageSize (items ++ [i])
          (Function.update layout items.length offset) := by
  subst hdirectory hsize
  have htouched (o : Nat) (ho : InRange 0 4 o) : o < 0x10000000000000000 :=
    Nat.lt_trans ho.2 (by decide)
  -- the list grows with the copy of the count, which is in one page
  have hafter (d : Disk) (hc : Confined s.memory.store.directory s.memory.store.pageSize
      (InRange 0 4) (InRange 0 4) s.host.disk d)
      (hspace : d.space s.memory.store.directory s.memory.store.pageSize
        = (PagedFile.bytesOf s).write
        0 (encodeInt32 (.ofNat (items.length + 1)))) :
      d.Records s.memory.store.directory s.memory.store.pageSize (items ++ [i])
        (Function.update layout items.length offset) :=
    hrecords.commit hrecord hfits hoffset hroom hc htouched hspace
  obtain ⟨htouches, hbytes, -, -⟩ := ht
  rw [length_encodeInt32] at htouches
  constructor
  · refine .of_atOnce (hatOnce (ByteSpace.count_inOnePage hpage)) (fun d hc hspace => ?_) ?_
    · rw [length_encodeInt32] at hc
      exact hrecords.confined hc htouched fun o _ => congrFun hspace o
    · intro d hc hspace
      rw [length_encodeInt32] at hc
      exact hafter d hc hspace
  · refine hafter t.host.disk htouches.last ?_
    rw [← hbytes, PagedFile.bytesOf, PageStore.contents, htouches.same.directory,
      htouches.same.pageSize]
    rfl

/-- The record is written behind the others, where it does not count yet; then the count is raised
over it in one step. -/
theorem publish_ensures (h : Carries items layout s) (message : Message) {offset : Nat}
    (hnew : items.find? message.uuid = none) (hoffset : offset < 0x8000000000000000)
    (hroom : items.length + 1 < 0x80000000) (hpage : 4 ≤ s.memory.file.store.pageSize) :
    (publish message.uuid (.ofNat offset) (.ofNat message.size) message.kind).Ensures s fun _ t =>
      Becomes items layout (items ++ [.ofMessage message])
        (Function.update layout items.length offset) s t := by
  have hopenable := h.openable
  have hpos := s.memory.file.store.pageSize_pos
  -- the entry that is made is the one that the ledger has for the message
  have hentry : (⟨message.uuid, .ofNat offset, .ofNat message.size, message.kind, s.memory.next,
      .new⟩ : Entry) = (Item.ofMessage message).toEntry items.length offset := by
    rw [h.next_eq]
    rfl
  unfold publish takePosition addEntry writeRecord raiseCount enterLive enterOrdered onFile Ensures
  simp only [leads_bind, leads_memory, leads_update, leads_within, leads_pure, leads_ite, hentry]
  rw [h.next_eq, h.count_eq]
  simp only [Nat.lt_add_one, if_true]
  refine (PagedFile.writeBytes_leads (s := ⟨s.host, s.memory.file⟩) h.ready _ _).mono ?_
    fun _ _ hfailed => PagedFile.not_failed (s := ⟨s.host, s.memory.file⟩) hopenable hfailed
  intro _ t ht
  obtain ⟨hturns, hrecords, hrecord, hfits⟩ := wrote_record (s := ⟨s.host, s.memory.file⟩) rfl rfl
    hpos (Nat.lt_of_succ_lt hroom) h.records ht
  have hdirectory : t.memory.store.directory = s.memory.file.store.directory :=
    ht.touches.same.directory
  have hsize : t.memory.store.pageSize = s.memory.file.store.pageSize := ht.touches.same.pageSize
  have hbytes : encodeInt32 (.ofNat (items.length + 1)) ≠ [] :=
    List.ne_nil_of_length_pos (by simp)
  refine (PagedFile.writeWord_leads (s := t) ht.touches.ready 0 hbytes).mono ?_ ?_
  · intro _ u hu
    obtain ⟨hu, hatOnce⟩ := hu
    rw [length_encodeInt32] at hatOnce
    obtain ⟨hturns', hrecords'⟩ :=
      raised_count hdirectory hsize hpage hoffset hroom hrecords hrecord
      hfits hu hatOnce
    refine ⟨(hturns _).comp hturns' fun _ => id, ⟨hu.touches.ready, ?_, ?_, ?_, ?_⟩, rfl⟩
    · show u.host.disk.Records u.memory.store.directory u.memory.store.pageSize _ _
      have hsame : u.memory.store.directory = _ := hu.touches.same.directory
      have hsame' : u.memory.store.pageSize = _ := hu.touches.same.pageSize
      rw [hsame, hsame']
      exact hdirectory ▸ hsize ▸ hrecords'
    · rw [Items.held_push (i := .ofMessage message) rfl offset]
      refine h.holds.enter (e := (Item.ofMessage message).toEntry items.length offset)
        (Items.held_eq_none (Nat.le_refl _)) rfl ?_ rfl rfl rfl
      intro q e he
      obtain ⟨j, hj, hlive, rfl⟩ := Items.held_eq_some_iff.mp he
      exact Items.find?_eq_none_iff.mp hnew q j hj hlive
    · simp
    · simp
  · intro _ _ hfailed
    refine PagedFile.not_failed (s := t) ?_ hfailed
    rw [hdirectory]
    exact hrecords.tidy.toOpenable

/-! ## A message moves -/

/-- The status of the entry of a message was replaced, in memory and in its record. -/
structure Persisted (items : Items) (layout : Nat → Nat) (p : Nat) (i : Item) (id : EntryId)
    (status : Status) (s t : Session MessageIndex) : Prop where
  stands : Stands s.memory items layout p i id
  turns : Turns (Holding s items layout) (Holding s (items.setStatus p status) layout) (pagesOf s)
    (pagesOf t)
  records : Holding t (items.setStatus p status) layout t.host.disk
  entries_eq : t.memory.entries = s.memory.entries.modify id ({ · with status })
  live_eq : t.memory.live = s.memory.live
  ordered_eq : t.memory.ordered = s.memory.ordered
  pending_eq : t.memory.pending = s.memory.pending
  next_eq : t.memory.next = s.memory.next
  count_eq : t.memory.count = s.memory.count

/-- The status is written over the one in the record, in one step. -/
theorem persistStatus_ensures (h : Carries items layout s) (hroom : items.length < 0x80000000)
    (hpage : 8 ∣ s.memory.file.store.pageSize) (hstands : Stands s.memory items layout p i id)
    (status : Status) :
    (persistStatus id).Ensures ⟨s.host, { s.memory with
      entries := s.memory.entries.modify id ({ · with status }) }⟩ fun _ t =>
      Persisted items layout p i id status s t := by
  have hopenable := h.openable
  have hrecords := h.records
  have hp := Items.lt_length hstands.item
  have hentry : ({ s.memory with entries := s.memory.entries.modify id ({ · with status }) } :
      MessageIndex).entry id = { i.toEntry p (layout p) with status } := by
    have hlt := h.holds.lt_size hstands.ordered
    rw [entry_of_modify (m := s.memory) (f := ({ · with status })) rfl, if_pos ⟨rfl, hlt⟩,
      hstands.entry]
  have hposition : (i.toEntry p (layout p)).position = p := rfl
  have hbytes : encodeInt32 status.tag ≠ [] := List.ne_nil_of_length_pos (by simp)
  have htouched (o : Nat) (ho : InRange (Record.place p + Record.statusOffset) 4 o) :
      o < 0x10000000000000000 := by
    obtain ⟨-, hlt⟩ := ho
    simp only [Record.place, Record.countSize, Record.size, Record.statusOffset] at hlt
    omega
  unfold persistStatus onFile Ensures
  simp only [leads_bind, leads_memory, leads_within, hentry, hposition]
  refine (PagedFile.writeWord_leads (s := ⟨s.host, s.memory.file⟩) h.ready _ hbytes).mono ?_
    fun _ _ hfailed => PagedFile.not_failed (s := ⟨s.host, s.memory.file⟩) hopenable hfailed
  intro _ t ht
  obtain ⟨⟨htouches, hspace, -, -⟩, hatOnce⟩ := ht
  rw [length_encodeInt32] at hatOnce htouches
  refine ⟨hstands, ?_, ?_, rfl, rfl, rfl, rfl, rfl, rfl⟩
  · -- the size of a page is a multiple of eight, so the status lies in one page
    refine .of_atOnce
      (hatOnce (ByteSpace.status_inOnePage hpage s.memory.file.store.pageSize_pos p))
      (fun d hc hold => ?_) fun d hc hnew => ?_
    · rw [length_encodeInt32] at hc
      exact hrecords.confined hc htouched fun o _ => congrFun hold o
    · rw [length_encodeInt32] at hc
      exact hrecords.setStatus hstands.item hc htouched hnew
  · have hdirectory : t.memory.store.directory = _ := htouches.same.directory
    have hsize : t.memory.store.pageSize = _ := htouches.same.pageSize
    show t.host.disk.Records t.memory.store.directory t.memory.store.pageSize _ _
    rw [PagedFile.bytesOf, PageStore.contents, Session.memory_part, hdirectory, hsize] at hspace
    rw [hdirectory, hsize]
    exact hrecords.setStatus hstands.item htouches.last htouched hspace

/-- The entry of an item whose status was stored bears it. -/
theorem Persisted.entry (h : Persisted items layout p i id status s t)
    (hs : Carries items layout s) :
    t.memory.entry id = Item.toEntry { i with status } p (layout p) := by
  have hlt := hs.holds.lt_size h.stands.ordered
  rw [entry_of_modify h.entries_eq, if_pos ⟨rfl, hlt⟩, h.stands.entry]
  rfl

/-- A move ends with the index carrying the list in which the message has moved. -/
def Moves (items : Items) (layout : Nat → Nat) (status : Status) (s : Session MessageIndex)
    (position? : Option Nat) (found : Option EntryId) (t : Session MessageIndex) : Prop :=
  (∃ p i id, position? = some p ∧ found = some id ∧ items[p]? = some i ∧ i.status.isLive = true
    ∧ Becomes items layout (items.setStatus p status) layout s t
    ∧ t.memory.entry id = Item.toEntry { i with status } p (layout p))
  ∨ position? = none ∧ found = none ∧ t = s

/-- A message that stays in the queue has moved once its status is replaced. -/
theorem Persisted.moves (h : Persisted items layout p i id status s t)
    (hs : Carries items layout s) (hlive : status.isLive = true) :
    Moves items layout status s (some p) (some id) t := by
  have hstands := h.stands
  have hlength := Items.length_setStatus items p status
  refine .inl ⟨p, i, id, rfl, rfl, hstands.item, hstands.isLive,
    ⟨h.turns, ⟨h.turns.ready, h.records, ?_, ?_, ?_⟩, ?_⟩, h.entry hs⟩
  · have hset := hs.holds.setStatus hstands.ordered hlive h.entries_eq h.live_eq h.ordered_eq
    rw [hstands.entry] at hset
    rw [Items.held_setStatus_of_live hstands.item hlive]
    exact hset
  · rw [h.count_eq, hlength]
    exact hs.count_eq
  · rw [h.next_eq, hlength]
    exact hs.next_eq
  · exact h.pending_eq

/-- A transition finds the message of a UUID if it has the expected status, and moves it. -/
theorem transition_ensures (h : Carries items layout s) (hwell : items.WellFormed)
    (hroom : items.length < 0x80000000) (hpage : 8 ∣ s.memory.file.store.pageSize) (uuid : Uuid)
    (expected status : Status) :
    (transition uuid expected status).Ensures s fun found t =>
      (∃ p i id, items.at? uuid expected = some p ∧ found = some id
        ∧ Persisted items layout p i id status s t)
      ∨ items.at? uuid expected = none ∧ found = none ∧ t = s := by
  unfold transition compareAndSet Ensures
  rcases h.holds.find?_cases hwell uuid with ⟨p, i, id, hfind, hfound, -, hstands⟩ | ⟨hfind, hfound⟩
  · simp only [leads_bind, leads_memory, leads_ite, leads_update, leads_pure, hfound,
      hstands.entry]
    by_cases hstatus : i.status = expected
    · have hat : items.at? uuid expected = some p := by
        rw [Items.at?, hfind, Option.filter_some, if_pos]
        rw [hstands.item, Option.any_some, hstatus]
        exact decide_eq_true rfl
      have hentry : (i.toEntry p (layout p)).status = expected := hstatus
      simp only [if_pos hentry, if_true]
      refine (persistStatus_ensures h hroom hpage hstands status).mono fun _ t ht => ?_
      exact .inl ⟨p, i, id, hat, rfl, ht⟩
    · have hat : items.at? uuid expected = none := by
        rw [Items.at?, hfind, Option.filter_some, if_neg]
        rw [hstands.item, Option.any_some, decide_eq_true_iff]
        exact hstatus
      have hentry : ¬ (i.toEntry p (layout p)).status = expected := hstatus
      simp only [if_neg hentry, Bool.false_eq_true, if_false]
      exact .inr ⟨hat, trivial, trivial⟩
  · have hat : items.at? uuid expected = none := by
      rw [Items.at?, hfind]
      rfl
    simp only [leads_bind, leads_memory, leads_pure, hfound]
    exact .inr ⟨hat, trivial, trivial⟩

/-- A new message is locked in memory and on disk. -/
theorem lock_ensures (h : Carries items layout s) (hwell : items.WellFormed)
    (hroom : items.length < 0x80000000) (hpage : 8 ∣ s.memory.file.store.pageSize) (uuid : Uuid) :
    (lock uuid).Ensures s (Moves items layout .locked s (items.at? uuid .new)) := by
  refine (transition_ensures h hwell hroom hpage uuid .new .locked).mono ?_
  intro found t ht
  rcases ht with ⟨p, i, id, hat, rfl, ht⟩ | hnone
  · rw [hat]
    exact ht.moves h rfl
  · exact .inr hnone

/-- A locked one is new again in both. -/
theorem rollback_ensures (h : Carries items layout s) (hwell : items.WellFormed)
    (hroom : items.length < 0x80000000) (hpage : 8 ∣ s.memory.file.store.pageSize) (uuid : Uuid) :
    (rollback uuid).Ensures s (Moves items layout .new s (items.at? uuid .locked)) := by
  refine (transition_ensures h hwell hroom hpage uuid .locked .new).mono ?_
  intro found t ht
  rcases ht with ⟨p, i, id, hat, rfl, ht⟩ | hnone
  · rw [hat]
    exact ht.moves h rfl
  · exact .inr hnone

/-- A finished message leaves both indexes. -/
theorem finish_ensures (h : Carries items layout s) (hwell : items.WellFormed)
    (hroom : items.length < 0x80000000) (hpage : 8 ∣ s.memory.file.store.pageSize) (uuid : Uuid) :
    (finish uuid).Ensures s (Moves items layout .deleted s (items.at? uuid .locked)) := by
  unfold finish Ensures
  simp only [leads_bind]
  refine (transition_ensures h hwell hroom hpage uuid .locked .deleted).leads.mono ?_
    fun _ _ => False.elim
  intro found t ht
  rcases ht with ⟨p, i, id, hat, rfl, ht⟩ | ⟨hat, rfl, rfl⟩
  · have hstands := ht.stands
    have hentry := ht.entry h
    have hlength := Items.length_setStatus items p .deleted
    have hknown : t.memory.live[i.uuid]? = some id := by
      rw [ht.live_eq]
      exact (h.holds.live_iff i.uuid id).mpr ⟨p, hstands.ordered, by rw [hstands.entry]; rfl⟩
    have huuid : (t.memory.entry id).uuid = i.uuid := by rw [hentry]; rfl
    have hposition : (t.memory.entry id).position = p := by rw [hentry]; rfl
    simp only [leaveLive, leaveOrdered, leads_bind, leads_memory, leads_ite, leads_update,
      leads_pure, huuid, if_pos hknown]
    -- the entry stays in the table, where it has its position still
    have hposition' : ({ t.memory with live := t.memory.live.erase i.uuid } :
      MessageIndex).entry id = t.memory.entry id := rfl
    rw [hposition', hposition]
    refine .inl ⟨p, i, id, hat, rfl, hstands.item, hstands.isLive,
      ⟨ht.turns, ⟨ht.turns.ready, ht.records, ?_, ?_, ?_⟩, ht.pending_eq⟩, hentry⟩
    · rw [Items.held_setStatus_of_dead rfl]
      refine h.holds.leave hstands.ordered ⟨_, ht.entries_eq⟩ ?_ ?_
      · rw [hstands.entry]
        exact congrArg (·.erase i.uuid) ht.live_eq
      · exact congrArg (·.erase p) ht.ordered_eq
    · rw [hlength]
      exact ht.count_eq.trans h.count_eq
    · rw [hlength]
      exact ht.next_eq.trans h.next_eq
  · simp only [leads_pure]
    exact .inr ⟨hat, rfl, rfl⟩

/-- What takes the first message that waits takes the one that is found. -/
theorem takeFirst_ensures (h : Carries items layout s) (hroom : items.length < 0x80000000)
    (hpage : 8 ∣ s.memory.file.store.pageSize) (ids : List EntryId)
    (hfirst : ∀ id, ids.find? (fun id => (s.memory.entry id).status = .new) = some id →
      ∃ p i, Stands s.memory items layout p i id) :
    (takeFirst ids).Ensures s fun found t =>
      (∃ p i id, ids.find? (fun id => (s.memory.entry id).status = .new) = some id
        ∧ found = some id ∧ Persisted items layout p i id .locked s t)
      ∨ ids.find? (fun id => (s.memory.entry id).status = .new) = none ∧ found = none ∧ t = s := by
  induction ids with
  | nil => exact .inr ⟨rfl, rfl, rfl⟩
  | cons id rest ih =>
    unfold takeFirst compareAndSet Ensures
    simp only [leads_bind, leads_memory, leads_ite, leads_update, leads_pure]
    by_cases hnew : (s.memory.entry id).status = .new
    · have hfind : (id :: rest).find? (fun id => (s.memory.entry id).status = .new) = some id :=
        List.find?_cons_of_pos (decide_eq_true hnew)
      obtain ⟨p, i, hstands⟩ := hfirst id hfind
      simp only [if_pos hnew, if_true]
      refine (persistStatus_ensures h hroom hpage hstands .locked).mono fun _ t ht => ?_
      exact .inl ⟨p, i, id, hfind, rfl, ht⟩
    · have hfind : (id :: rest).find? (fun id => (s.memory.entry id).status = .new)
          = rest.find? (fun id => (s.memory.entry id).status = .new) :=
        List.find?_cons_of_neg (by simpa using hnew)
      rw [hfind] at hfirst ⊢
      simp only [if_neg hnew, Bool.false_eq_true, if_false]
      exact ih hfirst

/-- The oldest new one is locked in both. -/
theorem pop_ensures (h : Carries items layout s) (hroom : items.length < 0x80000000)
    (hpage : 8 ∣ s.memory.file.store.pageSize) :
    pop.Ensures s (Moves items layout .locked s items.oldest?) := by
  unfold pop Ensures
  simp only [leads_bind, leads_memory]
  have hvalues : s.memory.ordered.values.find? (fun id => (s.memory.entry id).status = .new)
      = s.memory.oldestNew? := rfl
  rcases h.holds.oldestNew?_cases with ⟨p, i, id, holdest, hfound, -, hstands⟩ | ⟨holdest, hfound⟩
  · refine (takeFirst_ensures h hroom hpage _ fun id' hid' => ?_).mono ?_
    · rw [hvalues, hfound] at hid'
      exact ⟨p, i, Option.some.inj hid' ▸ hstands⟩
    · intro found t ht
      rcases ht with ⟨q, j, id', hid', rfl, ht⟩ | ⟨hnone, -⟩
      · rw [hvalues, hfound] at hid'
        cases hid'
        -- an entry stands at one position only
        obtain rfl : p = q := h.holds.position_unique hstands.ordered ht.stands.ordered
        rw [holdest]
        exact ht.moves h rfl
      · rw [hvalues, hfound] at hnone
        cases hnone
  · refine (takeFirst_ensures h hroom hpage _ fun id' hid' => ?_).mono ?_
    · rw [hvalues, hfound] at hid'
      cases hid'
    · intro found t ht
      rcases ht with ⟨q, j, id', hid', -⟩ | ⟨-, rfl, rfl⟩
      · rw [hvalues, hfound] at hid'
        cases hid'
      · exact .inr ⟨holdest, rfl, rfl⟩

end MessageIndex

end PagedQueue
