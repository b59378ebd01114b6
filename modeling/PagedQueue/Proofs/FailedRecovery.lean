import Mathlib.Data.Finset.Card
import PagedQueue.Proofs.StrandedMessages

/-!
# What a failed recovery leaves

A recovery empties both indexes before it reads anything, and fills them in different ways: a
message is known by its UUID as soon as its record is read, and the order of creation is put in
place when all records were read. So a recovery that fails does not leave an index as it found it.
What it leaves is told by what the records before the one that failed stand for (`SlotsRead`):
nothing is in the order of creation, and each UUID leads to the first message among these that has
it (`failed_recovery_leaves`). How many records there are and which position comes next is not
touched.

To follow what was read without regard to what was done with it, readings are compared in two
indexes over the same file (`MessageIndex.Reading`).
-/

namespace PagedQueue

open Procedure

namespace Slot

/-- The message that is in the queue, if there is one. -/
def entry? : Slot → Option Entry
  | live entry => some entry
  | vacant | tombstone => none

/-- The messages that are in the queue, in order. -/
def entries (slots : List Slot) : List Entry := slots.filterMap entry?

theorem entries_append_singleton (slots : List Slot) (slot : Slot) :
    entries (slots ++ [slot]) = entries slots ++ slot.entry?.toList := by
  cases h : slot.entry? <;> simp [entries, h]

end Slot

namespace MessageIndex

variable {α β : Type} {s t u v : Session MessageIndex} {fault : Fault}

/-! ## What is read -/

/-- What the record of a position stands for. -/
def readSlot (position : Nat) : Procedure MessageIndex Slot := do
  ofExcept (Slot.ofRecord (← readRecord position) position)

/-- The count as a recovery reads it, once it knows how far the pages reach. -/
def recoverCount : Procedure MessageIndex Nat := do
  discard (onFile PagedFile.recoverLength)
  readCount

/-- What the first records stand for, as a recovery comes to read them: behind the count, and only
those that it covers. -/
def readSlots (limit : Nat) : Procedure MessageIndex (List Slot) := do
  (List.range (min limit (← recoverCount))).mapM readSlot

/-- The slots that a recovery read before it failed: none if it failed at the count, and else all
before the one at which it failed. -/
def SlotsRead (s : Session MessageIndex) (slots : List Slot) (fault : Fault) : Prop :=
  slots = [] ∧ ((readSlots 0).outcome s).1 = .error fault
  ∨ ((readSlots slots.length).outcome s).1 = .ok slots
    ∧ ((readSlots (slots.length + 1)).outcome s).1 = .error fault

/-- The procedure depends on the file alone, and it changes nothing else. -/
def Reading (p : Procedure MessageIndex α) : Prop := ∀ u v, u.part file = v.part file →
  p.Leads v (fun value w => (∃ x, p u = .ok value x ∧ x.part file = w.part file)
      ∧ w.memory = { v.memory with file := w.memory.file })
    fun fault w => (∃ x, p u = .error fault x) ∧ w.memory = { v.memory with file := w.memory.file }

namespace Reading

theorem pure (value : α) : Reading (Pure.pure value : Procedure MessageIndex α) :=
  fun u _ h => ⟨⟨u, rfl, h⟩, rfl⟩

theorem ofExcept (value : Except Fault α) :
    Reading (MonadExcept.ofExcept value : Procedure MessageIndex α) := by
  cases value with
  | ok value => exact pure value
  | error fault => exact fun u _ _ => ⟨⟨u, rfl⟩, rfl⟩

theorem onFile (p : Procedure PagedFile α) : Reading (onFile p) := by
  intro u v h
  unfold MessageIndex.onFile
  rw [leads_within, ← h]
  refine (leads_answer p (u.part file)).mono (fun value w hw => ?_) fun fault w hw => ?_
  · refine ⟨⟨⟨w.host, { u.memory with file := w.memory }⟩, ?_, rfl⟩, rfl⟩
    simp only [within, Session.part] at hw ⊢
    rw [hw]
  · refine ⟨⟨⟨w.host, { u.memory with file := w.memory }⟩, ?_⟩, rfl⟩
    simp only [within, Session.part] at hw ⊢
    rw [hw]

/-- A procedure that only reads goes on reading. -/
theorem bind {p : Procedure MessageIndex α} {f : α → Procedure MessageIndex β} (hp : Reading p)
    (hf : ∀ value, Reading (f value)) : Reading (p >>= f) := by
  intro u v h
  rw [leads_bind]
  refine (hp u v h).mono (fun value w hw => ?_) fun fault w hw => ?_
  · obtain ⟨⟨x, hx, hfile⟩, hmemory⟩ := hw
    have happly : (p >>= f) u = f value x := by simp only [Bind.bind, EStateM.bind, hx]
    rw [happly]
    refine (hf value x w hfile).mono (fun _ y hy => ⟨hy.1, ?_⟩) fun _ y hy => ⟨hy.1, ?_⟩
    · rw [hy.2, hmemory]
    · rw [hy.2, hmemory]
  · obtain ⟨⟨x, hx⟩, hmemory⟩ := hw
    exact ⟨⟨x, by simp only [Bind.bind, EStateM.bind, hx]⟩, hmemory⟩

theorem discard {p : Procedure MessageIndex α} (hp : Reading p) : Reading (discard p) := by
  rw [discard_eq_bind]
  exact hp.bind fun _ => pure ()

theorem throw (fault : Fault) : Reading (throw fault : Procedure MessageIndex α) :=
  fun u _ _ => ⟨⟨u, rfl⟩, rfl⟩

theorem ite {c : Prop} [Decidable c] {p q : Procedure MessageIndex α} (hp : Reading p)
    (hq : Reading q) :
    Reading (if c then p else q) := by
  split
  · exact hp
  · exact hq

/-- A step that looks at the memory, but at the file only. -/
theorem memory {f : MessageIndex → Procedure MessageIndex α}
    (hfile : ∀ m n, m.file = n.file → f m = f n)
    (hf : ∀ m, Reading (f m)) : Reading (memory >>= f) := by
  intro u v huv
  have happly : (Procedure.memory >>= f) u = f v.memory u :=
    congrFun (hfile u.memory v.memory (congrArg Session.memory huv)) u
  rw [leads_bind, leads_memory, happly]
  exact hf v.memory u v huv

theorem recoverCount : Reading recoverCount := by
  refine (onFile _).discard.bind fun _ => memory (fun m n hmn => by rw [hmn]) fun m => ?_
  exact ite (pure 0) ((onFile _).bind fun count => ite (throw _) (ite (throw _) (pure _)))

/-- A slot is read without any change of the indexes. -/
theorem readSlot (position : Nat) : Reading (readSlot position) :=
  ((onFile _).bind fun _ => ofExcept _).bind fun _ => ofExcept _

end Reading

/-- One record more is read after those before it. -/
theorem readSlots_succ {n k : Nat} {slots : List Slot} (hcount : recoverCount s = .ok n t)
    (hk : k < n) (hslots : readSlots k s = .ok slots u) :
    readSlots (k + 1) s
      = (do return slots ++ [← readSlot k] : Procedure MessageIndex (List Slot)) u := by
  simp only [readSlots, Bind.bind, EStateM.bind, hcount] at hslots ⊢
  -- the count covers the further record, so neither of the two readings is cut short
  rw [Nat.min_eq_left (Nat.le_of_lt hk)] at hslots
  rw [Nat.min_eq_left hk, List.range_succ, List.mapM_append]
  simp only [Bind.bind, EStateM.bind, hslots, List.mapM_cons, List.mapM_nil]
  cases readSlot k u <;> rfl

/-! ## What is made of it -/

/-- What a UUID leads to is the first of these messages that has it. -/
structure Knows (m : MessageIndex) (messages : List Entry) : Prop where
  indexed : m.Indexed
  live : ∀ uuid : Uuid, m.live[uuid]?.map m.entry = messages.find? (·.uuid = uuid)
  size : m.size = (messages.map Entry.uuid).toFinset.card

namespace Knows

variable {m n : MessageIndex} {messages : List Entry} {e : Entry}

theorem of_empty (h : m.live = {}) : m.Knows [] :=
  ⟨indexed_of_empty h, fun uuid => by simp [h], by simp [MessageIndex.size, h]⟩

/-- What an index knows is told by its entries and its live map. -/
theorem congr (h : m.Knows messages) (hentries : n.entries = m.entries) (hlive : n.live = m.live) :
    n.Knows messages := by
  have hentry : n.entry = m.entry := funext fun id => by rw [entry, hentries, entry]
  refine ⟨fun uuid id hid => ?_, fun uuid => ?_, ?_⟩
  · rw [hentries, hentry]
    exact h.indexed uuid id (hlive ▸ hid)
  · rw [hlive, hentry]
    exact h.live uuid
  · rw [MessageIndex.size, hlive]
    exact h.size

/-- The live map holds the UUIDs of the known messages and no others. -/
theorem contains_iff (h : m.Knows messages) (uuid : Uuid) :
    m.live.contains uuid = true ↔ uuid ∈ messages.map Entry.uuid := by
  rw [Std.TreeMap.contains_eq_isSome_getElem?, ← Option.isSome_map, h.live, List.find?_isSome]
  simp

/-- A message whose UUID leads somewhere is passed over. -/
theorem skip (h : m.Knows messages) (hknown : m.live.contains e.uuid = true) :
    m.Knows (messages ++ [e]) := by
  have hmem := (h.contains_iff e.uuid).mp hknown
  refine ⟨h.indexed, fun uuid => ?_, ?_⟩
  · rw [h.live, List.find?_append]
    by_cases heq : e.uuid = uuid
    · rw [Std.TreeMap.contains_eq_isSome_getElem?, Option.isSome_iff_exists] at hknown
      obtain ⟨id, hid⟩ := hknown
      rw [← h.live, ← heq, hid]
      rfl
    · simp [heq]
  · rw [h.size, List.map_append, List.toFinset_append, List.map_singleton]
    congr 1
    ext uuid
    simp only [List.mem_toFinset, Finset.mem_union, List.mem_singleton]
    constructor
    · exact .inl
    · rintro (hin | rfl)
      · exact hin
      · exact hmem

/-- A message whose UUID leads nowhere enters. -/
theorem enter (h : m.Knows messages) (hnew : ¬ m.live.contains e.uuid = true)
    (hentries : n.entries = m.entries.push e)
    (hlive : n.live = m.live.insert e.uuid m.entries.size) :
    n.Knows (messages ++ [e]) := by
  have hmem := mt (h.contains_iff e.uuid).mpr hnew
  have hself : n.entry m.entries.size = e := entry_of_push_self hentries
  have hget (uuid : Uuid) : n.live[uuid]? = if e.uuid = uuid then some m.entries.size
      else m.live[uuid]? := by
    rw [hlive, Std.TreeMap.getElem?_insert]
    simp only [Std.LawfulEqCmp.compare_eq_iff_eq]
  refine ⟨fun uuid id hid => ?_, fun uuid => ?_, ?_⟩
  · rw [hentries, Array.size_push]
    rw [hget] at hid
    split at hid
    next heq =>
      cases hid
      exact ⟨Nat.lt_succ_self _, hself ▸ heq⟩
    next =>
      obtain ⟨hlt, huuid⟩ := h.indexed uuid id hid
      exact ⟨Nat.lt_succ_of_lt hlt, (entry_of_push hentries hlt).symm ▸ huuid⟩
  · rw [hget, List.find?_append]
    split
    next heq =>
      have hnone : messages.find? (·.uuid = uuid) = none := by
        rw [List.find?_eq_none]
        intro other hother hsame
        exact hmem (List.mem_map.mpr ⟨other, hother, (of_decide_eq_true hsame).trans heq.symm⟩)
      simp [hnone, hself, heq]
    next hne =>
      have hstays : m.live[uuid]?.map n.entry = m.live[uuid]?.map m.entry := by
        cases hid : m.live[uuid]? with
        | none => rfl
        | some id => exact congrArg some (entry_of_push hentries (h.indexed uuid id hid).1)
      rw [hstays, h.live]
      simp [hne]
  · rw [MessageIndex.size, hlive, Std.TreeMap.size_insert,
      if_neg (by simpa using hnew), List.map_append,
      List.toFinset_append, List.map_singleton, List.toFinset_cons, List.toFinset_nil,
      Finset.card_union_of_disjoint (by simpa using hmem), ← h.size]
    rfl

end Knows

/-- What is in memory when a recovery has read these slots and is not through. -/
structure Unfinished (before : MessageIndex) (slots : List Slot) (m : MessageIndex) : Prop where
  knows : m.Knows (Slot.entries slots)
  ordered : m.ordered = {}
  count_eq : m.count = before.count
  next_eq : m.next = before.next

/-- A further reading touches the file alone. -/
theorem Unfinished.withFile {before m : MessageIndex} {slots : List Slot}
    (h : Unfinished before slots m) (file : PagedFile) : Unfinished before slots { m with file } :=
  ⟨h.knows.congr rfl rfl, h.ordered, h.count_eq, h.next_eq⟩

/-- A recovery has read the first records, and nothing has failed. -/
def Scanned (s : Session MessageIndex) (k : Nat) (v : Session MessageIndex) : Prop :=
  ∃ slots u, readSlots k s = .ok slots u ∧ u.part file = v.part file ∧ slots.length = k
    ∧ Unfinished s.memory slots v.memory

/-- A recovery has failed with this fault. -/
def Failed (s : Session MessageIndex) (fault : Fault) (t : Session MessageIndex) : Prop :=
  ∃ slots, SlotsRead s slots fault ∧ Unfinished s.memory slots t.memory

/-- A slot without a message changes nothing, and the message of another one becomes known by its
UUID unless an earlier one has it. -/
theorem recoverRecord_scans {n k : Nat} {found : Tally × Std.TreeMap Nat EntryId}
    (hcount : recoverCount s = .ok n t) (hk : k < n) (h : Scanned s k v) :
    (recoverRecord found k).Leads v (fun _ => Scanned s (k + 1)) (Failed s) := by
  obtain ⟨tally, ordered⟩ := found
  obtain ⟨slots, u, hslots, hfile, rfl, h⟩ := h
  have hnext := readSlots_succ hcount hk hslots
  unfold recoverRecord
  dsimp only
  rw [← bind_assoc, leads_bind]
  -- the recovery reads here in `v` what is read in `u`, where nothing was entered before
  refine (Reading.readSlot slots.length u v hfile).mono (fun slot w hw => ?_) fun fault w hw => ?_
  · obtain ⟨⟨x, hx, hfile⟩, hmemory⟩ := hw
    have hdone {y : Session MessageIndex} (hsame : y.part file = w.part file)
        (hrest : Unfinished s.memory (slots ++ [slot]) y.memory) :
        Scanned s (slots.length + 1) y := by
      refine ⟨slots ++ [slot], x, ?_, hfile.trans hsame.symm, by simp, hrest⟩
      rw [hnext]
      simp only [Bind.bind, EStateM.bind, hx]
      rfl
    have hw : Unfinished s.memory slots w.memory := hmemory ▸ h.withFile _
    have hentries := Slot.entries_append_singleton slots slot
    -- only a message that is in the queue can enter
    cases slot with
    | vacant =>
      rw [Slot.entry?, Option.toList_none, List.append_nil] at hentries
      exact hdone rfl ⟨hentries ▸ hw.knows, hw.ordered, hw.count_eq, hw.next_eq⟩
    | tombstone =>
      rw [Slot.entry?, Option.toList_none, List.append_nil] at hentries
      exact hdone rfl ⟨hentries ▸ hw.knows, hw.ordered, hw.count_eq, hw.next_eq⟩
    | live entry =>
      rw [Slot.entry?, Option.toList_some] at hentries
      simp only [leads_bind, leads_memory, leads_ite]
      split
      next hknown =>
        exact hdone rfl ⟨hentries ▸ hw.knows.skip hknown, hw.ordered, hw.count_eq, hw.next_eq⟩
      next hnew =>
        simp only [addEntry, enterLive, leads_bind, leads_memory, leads_update, leads_pure]
        exact hdone rfl ⟨hentries ▸ hw.knows.enter hnew rfl rfl, hw.ordered, hw.count_eq,
          hw.next_eq⟩
  · obtain ⟨⟨x, hx⟩, hmemory⟩ := hw
    refine ⟨slots, .inr ⟨by rw [Procedure.outcome, hslots], ?_⟩, hmemory ▸ h.withFile _⟩
    rw [Procedure.outcome, hnext]
    simp only [Bind.bind, EStateM.bind, hx]

/-- The count is the first that a recovery reads; the records are read one by one after it. -/
theorem recover_eq_recoverCount : recover = (do
    update fun s => { s with live := {}, ordered := {} }
    let count ← recoverCount
    let (tally, ordered) ← (List.range count).foldlM recoverRecord ({ records := count }, {})
    update fun s => { s with ordered, count, next := count }
    return tally) := by
  simp only [recover, recoverCount, bind_assoc]

/-- A recovery that fails does so at the count, or at a record when those before it were read. -/
theorem recover_fails (s : Session MessageIndex) :
    recover.Leads s (fun _ _ => True) (Failed s) := by
  rw [recover_eq_recoverCount, leads_bind, leads_update, leads_bind]
  -- the count is read when the indexes are empty already, but from the same file
  have hempty : Unfinished s.memory [] { s.memory with live := {}, ordered := {} } :=
    ⟨.of_empty rfl, rfl, rfl, rfl⟩
  refine (Reading.recoverCount s ⟨s.host, { s.memory with live := {}, ordered := {} }⟩ rfl).mono
    (fun n v hv => ?_) fun fault v hv => ?_
  · obtain ⟨⟨t, hcount, hfile⟩, hmemory⟩ := hv
    have hstart : Scanned s 0 v := by
      refine ⟨[], t, ?_, hfile, rfl, hmemory ▸ hempty.withFile _⟩
      simp only [readSlots, Bind.bind, EStateM.bind, hcount, Nat.zero_min]
      rfl
    rw [leads_bind]
    refine (leads_foldlM_range recoverRecord (fun k _ => Scanned s k) hstart fun k _ _ hk hw =>
      recoverRecord_scans hcount hk hw).mono (fun _ _ _ => ?_) fun _ _ => id
    trivial
  · obtain ⟨⟨t, hcount⟩, hmemory⟩ := hv
    refine ⟨[], .inl ⟨rfl, ?_⟩, hmemory ▸ hempty.withFile _⟩
    simp only [Procedure.outcome, readSlots, Bind.bind, EStateM.bind, hcount]

/-- When a recovery fails, whatever was in memory and whatever is in the file, the next position and
the number of records are what they were. Nothing is in the order of creation. Of the messages in
the slots that were read before, the first of each UUID is known by it, and they are counted;
nothing else is known. -/
theorem failed_recovery_leaves (h : recover.outcome s = (.error fault, t)) :
    ∃ slots, SlotsRead s slots fault
      ∧ t.memory.next = s.memory.next ∧ t.memory.count = s.memory.count
      ∧ t.memory.ordered = {}
      ∧ (∀ uuid : Uuid, t.memory.live[uuid]?.map t.memory.entry
        = (Slot.entries slots).find? (·.uuid = uuid))
      ∧ t.memory.size = ((Slot.entries slots).map Entry.uuid).toFinset.card := by
  obtain ⟨slots, hslots, hleft⟩ := (recover_fails s).of_error h
  exact ⟨slots, hslots, hleft.next_eq, hleft.count_eq, hleft.ordered, hleft.knows.live,
    hleft.knows.size⟩

/-- Two messages come in, and then the status of the second one is overwritten by one that there is
not. -/
def strangeStatus : Session MessageIndex :=
  let pushed : Session MessageIndex :=
    [.reserve ⟨1⟩, .push ⟨⟨1⟩, 0, 0, .text⟩, .reserve ⟨2⟩, .push ⟨⟨2⟩, 0, 0, .text⟩].foldl
      (fun s (c : HeldCall) => (c.procedure.outcome s).2) narrowIndex
  ((onFile (PagedFile.writeInt32 (Record.place 1 + Record.statusOffset) 9)).outcome pushed).2

/-- What comes of recovering it. -/
def strangeRecovery : Except Fault Tally × Session MessageIndex := recover.outcome strangeStatus

theorem strangeRecovery_first : strangeRecovery.1.toOption.isNone = true
    ∧ strangeRecovery.2.memory.live.keys = [⟨1⟩] ∧ strangeRecovery.2.memory.ordered.keys = []
    ∧ strangeRecovery.2.memory.size = 1 ∧ strangeRecovery.2.memory.oldestNew? = none
    ∧ strangeRecovery.2.memory.live[(⟨1⟩ : Uuid)]?.map strangeRecovery.2.memory.entry
      = some (Draft.entry ⟨⟨1⟩, 0, 0, .text⟩ 0) := by
  decide +kernel

/-- The recovery stops at the second message, and the first one is known. -/
theorem failed_recovery_leaves_first : ∃ fault slots, strangeRecovery.1 = .error fault
    ∧ SlotsRead strangeStatus slots fault
    ∧ ((Slot.entries slots).map Entry.uuid).toFinset.card = 1
    ∧ (Slot.entries slots).find? (·.uuid = ⟨1⟩) = some (Draft.entry ⟨⟨1⟩, 0, 0, .text⟩ 0) := by
  obtain ⟨hfailed, -, -, hsize, -, hfirst⟩ := strangeRecovery_first
  obtain ⟨fault, hfault⟩ := error_of_toOption hfailed
  have hrecovery : recover.outcome strangeStatus = (.error fault, strangeRecovery.2) :=
    Prod.ext hfault rfl
  obtain ⟨slots, hslots, -, -, -, hlive, hcounted⟩ := failed_recovery_leaves hrecovery
  exact ⟨fault, slots, hfault, hslots, hcounted.symm.trans hsize, (hlive _).symm.trans hfirst⟩

/-- Two messages wait to be taken. The recovery fails, and then one is known and none can be
taken. -/
theorem failed_recovery_forgets : strangeRecovery = recover.outcome strangeStatus
    ∧ strangeRecovery.1.toOption.isNone = true
    ∧ strangeStatus.memory.live.keys = [⟨1⟩, ⟨2⟩] ∧ strangeStatus.memory.ordered.keys = [0, 1]
    ∧ strangeStatus.memory.size = 2 ∧ strangeStatus.memory.oldestNew? = some 0
    ∧ strangeRecovery.2.memory.live.keys = [⟨1⟩] ∧ strangeRecovery.2.memory.ordered.keys = []
    ∧ strangeRecovery.2.memory.size = 1 ∧ strangeRecovery.2.memory.oldestNew? = none := by
  have hbefore : strangeStatus.memory.live.keys = [⟨1⟩, ⟨2⟩]
      ∧ strangeStatus.memory.ordered.keys = [0, 1]
      ∧ strangeStatus.memory.size = 2 ∧ strangeStatus.memory.oldestNew? = some 0 := by
        decide +kernel
  obtain ⟨hlive, hordered, hsize, holdest⟩ := hbefore
  obtain ⟨hfailed, hlive', hordered', hsize', holdest', -⟩ := strangeRecovery_first
  exact ⟨rfl, hfailed, hlive, hordered, hsize, holdest, hlive', hordered', hsize', holdest'⟩

end MessageIndex

end PagedQueue
