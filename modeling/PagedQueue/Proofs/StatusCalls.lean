import PagedQueue.Index.Clients
import PagedQueue.Proofs.IndexedEntries
import PagedQueue.Queue

/-!
# Calls that move the status of a message

Messages are taken, finished and given back by calls that select an entry, move its status in
memory, and then write the status to the record. What the writing comes to is the only thing that
depends on the pages; all else that such a call does follows from it (`StatusCall.onIndex_selects`).
-/

namespace PagedQueue

open Procedure

namespace MessageIndex

variable {s : Session MessageIndex}

/-- The index with the status of an entry moved. -/
def withStatus (m : MessageIndex) (id : EntryId) (status : Status) : MessageIndex :=
  { m with entries := m.entries.modify id ({ · with status }) }

/-- The index whose UUIDs and positions do not lead to an entry any more. -/
def without (m : MessageIndex) (id : EntryId) : MessageIndex :=
  { m with
    live := m.live.erase (m.entry id).uuid
    ordered := m.ordered.erase (m.entry id).position }

/-! ## The entry that is selected -/

variable {wrote : EntryId → Session MessageIndex → Prop}
  {failed : EntryId → Fault → Session MessageIndex → Prop}

/-- A transition finds an entry in the expected status and writes the new one, or does nothing. -/
theorem transition_selects (uuid : Uuid) (expected status : Status)
    (hpersist : ∀ id, (s.memory.find? uuid).filter (fun id => (s.memory.entry id).status = expected)
        = some id →
      (persistStatus id).Leads ⟨s.host, s.memory.withStatus id status⟩
        (fun _ => wrote id) (failed id)) :
    (transition uuid expected status).Leads s
      (fun found t => found = none ∧ t = s
          ∧ (s.memory.find? uuid).filter (fun id => (s.memory.entry id).status = expected) = none
        ∨ ∃ id, found = some id
          ∧ (s.memory.find? uuid).filter (fun id => (s.memory.entry id).status = expected) = some id
          ∧ wrote id t)
      fun fault t => ∃ id,
        (s.memory.find? uuid).filter (fun id => (s.memory.entry id).status = expected) = some id
        ∧ failed id fault t := by
  unfold transition compareAndSet
  rw [leads_bind, leads_memory]
  cases hfind : s.memory.find? uuid with
  | none => exact .inl ⟨rfl, rfl, rfl⟩
  | some id =>
    rw [hfind] at hpersist
    simp only [leads_bind, leads_memory, leads_ite, leads_update, leads_pure]
    by_cases hstatus : (s.memory.entry id).status = expected
    · have hselected : (some id).filter
          (fun id => (s.memory.entry id).status = expected) = some id :=
        Option.filter_eq_some_iff.mpr ⟨rfl, decide_eq_true hstatus⟩
      simp only [if_pos hstatus, if_true]
      exact (hpersist id hselected).mono (fun _ t ht => .inr ⟨id, rfl, hselected, ht⟩)
        fun _ t ht => ⟨id, hselected, ht⟩
    · have hnone : (some id).filter (fun id => (s.memory.entry id).status = expected) = none := by
        rw [Option.filter_some, if_neg (by simpa using hstatus)]
      simp only [if_neg hstatus, Bool.false_eq_true, if_false]
      exact .inl ⟨trivial, trivial, hnone⟩

/-- What takes the first entry that waits finds it and writes its status, or does nothing. -/
theorem takeFirst_selects (ids : List EntryId)
    (hpersist : ∀ id, ids.find? (fun id => (s.memory.entry id).status = .new) = some id →
      (persistStatus id).Leads ⟨s.host, s.memory.withStatus id .locked⟩
        (fun _ => wrote id) (failed id)) :
    (takeFirst ids).Leads s
      (fun found t => found = none ∧ t = s
          ∧ ids.find? (fun id => (s.memory.entry id).status = .new) = none
        ∨ ∃ id, found = some id
          ∧ ids.find? (fun id => (s.memory.entry id).status = .new) = some id ∧ wrote id t)
      fun fault t => ∃ id, ids.find? (fun id => (s.memory.entry id).status = .new) = some id
        ∧ failed id fault t := by
  induction ids with
  | nil => exact .inl ⟨rfl, rfl, rfl⟩
  | cons id rest ih =>
    unfold takeFirst compareAndSet
    simp only [leads_bind, leads_memory, leads_ite, leads_update, leads_pure]
    by_cases hnew : (s.memory.entry id).status = .new
    · have hselected : (id :: rest).find? (fun id => (s.memory.entry id).status = .new) = some id :=
        List.find?_cons_of_pos (decide_eq_true hnew)
      simp only [if_pos hnew, if_true]
      exact (hpersist id hselected).mono (fun _ t ht => .inr ⟨id, rfl, hselected, ht⟩)
        fun _ t ht => ⟨id, hselected, ht⟩
    · have hskip : (id :: rest).find? (fun id => (s.memory.entry id).status = .new)
          = rest.find? (fun id => (s.memory.entry id).status = .new) :=
        List.find?_cons_of_neg (by simpa using hnew)
      rw [hskip] at hpersist ⊢
      simp only [if_neg hnew, Bool.false_eq_true, if_false]
      exact ih hpersist

end MessageIndex

theorem Move.source_ne_vacant (k : Move) : k.source ≠ .vacant := by
  cases k <;> decide

/-! ## Calls that move a message -/

/-- A call that moves the status of a message. -/
inductive StatusCall where
  | move (move : Move) (uuid : Uuid)
  | pop
  deriving DecidableEq

namespace StatusCall

variable {m : MessageIndex} {id : EntryId}

/-- What the call does with the queue. -/
def run : StatusCall → Procedure Queue (Option Message)
  | .move .lock uuid => Queue.lock uuid
  | .move .rollback uuid => Queue.rollback uuid
  | .move .finish uuid => Queue.finish uuid
  | .pop => Queue.pop

/-- What the call does with the index. -/
def onIndex : StatusCall → Procedure MessageIndex (Option EntryId)
  | .move m uuid => m.procedure uuid
  | .pop => MessageIndex.pop

theorem run_eq (c : StatusCall) : c.run = Queue.change c.onIndex := by
  rcases c with ⟨_ | _ | _, uuid⟩ | _ <;> rfl

/-- The move that the call makes. -/
def kind : StatusCall → Move
  | .move m _ => m
  | .pop => .lock

/-- The entry of the message that the call moves, if there is one. -/
def selected? (m : MessageIndex) : StatusCall → Option EntryId
  | .move k uuid => (m.find? uuid).filter fun id => (m.entry id).status = k.source
  | .pop => m.oldestNew?

/-- The index in which the message has moved. -/
def moved (c : StatusCall) (m : MessageIndex) (id : EntryId) : MessageIndex :=
  m.withStatus id c.kind.target

/-- The index in which the call has done all it has to do: a finished message has left it. -/
def done (c : StatusCall) (m : MessageIndex) (id : EntryId) : MessageIndex :=
  if c.kind = .finish then (c.moved m id).without id else c.moved m id

/-- How many messages leave the queue. -/
def leaving (c : StatusCall) : Nat := if c.kind = .finish then 1 else 0

/-- A message that is selected by its UUID is known by it. -/
theorem live_of_selected {k : Move} {uuid : Uuid} (h : selected? m (.move k uuid) = some id) :
    m.live[uuid]? = some id :=
  (Option.filter_eq_some_iff.mp (Option.filter_eq_some_iff.mp h).1).1

/-- The entry that is selected stands at some position. -/
theorem exists_position {c : StatusCall} {held : Nat → Option Entry} (hholds : m.Holds held)
    (h : c.selected? m = some id) : ∃ p : Nat, m.ordered[p]? = some id := by
  cases c with
  | pop => exact MessageIndex.exists_position_of_oldestNew? h
  | move k uuid =>
    obtain ⟨p, hp, -⟩ := hholds.find?_eq_some_iff.mp (Option.filter_eq_some_iff.mp h).1
    exact ⟨p, hp⟩

theorem size_done {c : StatusCall} (h : c.selected? m = some id) (hindexed : m.Indexed) :
    (c.done m id).size + c.leaving = m.size := by
  unfold done leaving
  split
  next hfinish =>
    cases c with
    | pop => cases hfinish
    | move k uuid =>
      have hlive := live_of_selected h
      obtain ⟨hlt, huuid⟩ := hindexed uuid id hlive
      have hmoved : ((moved (.move k uuid) m id).entry id).uuid = uuid := by
        rw [moved, MessageIndex.withStatus,
          @MessageIndex.entry_of_modify m _ id ({ · with status := k.target }) rfl,
          if_pos ⟨rfl, hlt⟩]
        exact huuid
      have hcontains : m.live.contains uuid = true := by
        rw [← Std.TreeMap.isSome_getElem?_eq_contains, hlive]
        rfl
      have hpos : m.live.size ≠ 0 := fun hzero => by
        have hempty := Std.TreeMap.isEmpty_eq_false_of_contains hcontains
        rw [Std.TreeMap.isEmpty_eq_size_eq_zero, hzero] at hempty
        cases hempty
      show (m.live.erase _).size + 1 = m.live.size
      rw [hmoved, Std.TreeMap.size_erase, if_pos hcontains]
      omega
  next => rfl

/-- The entry that is selected has the status from which the call moves it. -/
theorem status_of_selected {c : StatusCall} (h : c.selected? m = some id) :
    (m.entry id).status = c.kind.source := by
  cases c with
  | pop =>
    have hnew := List.find?_some h
    exact of_decide_eq_true hnew
  | move k uuid => exact of_decide_eq_true (Option.filter_eq_some_iff.mp h).2

/-- Of the entry that is selected only the status changes. -/
theorem entry_moved {c : StatusCall} (h : c.selected? m = some id) :
    (c.moved m id).entry id = { m.entry id with status := c.kind.target } := by
  have hid : (m.entry id).status ≠ .vacant := by
    rw [status_of_selected h]
    exact c.kind.source_ne_vacant
  exact (MessageIndex.entry_setStatus m hid id).trans (if_pos rfl)

theorem entry_done {c : StatusCall} (h : c.selected? m = some id) :
    (c.done m id).entry id = { m.entry id with status := c.kind.target } := by
  unfold done
  split
  · exact entry_moved h
  · exact entry_moved h

/-- Moving a message uses up no position. -/
theorem count_done (c : StatusCall) (m : MessageIndex) (id : EntryId) :
    (c.done m id).count = m.count := by
  unfold done
  split <;> rfl

theorem next_done (c : StatusCall) (m : MessageIndex) (id : EntryId) :
    (c.done m id).next = m.next := by
  unfold done
  split <;> rfl

/-- The index has moved the entry at the position of the one that is selected, or has removed it. -/
theorem holds_done {c : StatusCall} {held : Nat → Option Entry} {p : Nat} (hholds : m.Holds held)
    (hid : m.ordered[p]? = some id) (h : c.selected? m = some id) :
    (c.done m id).Holds (Function.update held p
      (if c.kind = .finish then none else some { m.entry id with status := c.kind.target })) := by
  have hentry := entry_moved h
  unfold done
  split
  next hfinish =>
    refine hholds.leave hid ⟨({ · with status := c.kind.target }), rfl⟩ ?_ ?_
    · show m.live.erase ((c.moved m id).entry id).uuid = _
      rw [hentry]
    · show m.ordered.erase ((c.moved m id).entry id).position = _
      rw [hentry, ← hholds.queued.position (hholds.held_of_ordered hid)]
  next hstays =>
    have hlive : c.kind.target.isLive = true := by
      cases hkind : c.kind with
      | finish => exact absurd hkind hstays
      | lock | rollback => rfl
    exact hholds.setStatus hid hlive rfl rfl rfl

variable {s : Session MessageIndex}

/-- The call selects its message, moves it and writes its status, or does nothing. -/
theorem onIndex_selects (c : StatusCall) (hindexed : s.memory.Indexed)
    (wrote : EntryId → Host → PagedFile → Prop)
    (failed : EntryId → Fault → Session MessageIndex → Prop)
    (hpersist : ∀ id, c.selected? s.memory = some id →
      (MessageIndex.persistStatus id).Leads ⟨s.host, c.moved s.memory id⟩
        (fun _ t => t.memory = { c.moved s.memory id with file := t.memory.file }
          ∧ wrote id t.host t.memory.file) (failed id)) :
    c.onIndex.Leads s
      (fun found t => found = none ∧ t = s ∧ c.selected? s.memory = none
        ∨ ∃ id, found = some id ∧ c.selected? s.memory = some id
          ∧ t.memory = { c.done s.memory id with file := t.memory.file }
          ∧ wrote id t.host t.memory.file)
      fun fault t => ∃ id, c.selected? s.memory = some id ∧ failed id fault t := by
  cases c with
  | pop => exact MessageIndex.takeFirst_selects _ hpersist
  | move k uuid =>
    have hmove := MessageIndex.transition_selects uuid k.source k.target hpersist
    cases k with
    | lock => exact hmove
    | rollback => exact hmove
    | finish =>
      unfold onIndex Move.procedure MessageIndex.finish
      simp only [leads_bind]
      refine hmove.mono ?_ fun _ _ => id
      intro found t ht
      rcases ht with ⟨rfl, rfl, hnone⟩ | ⟨id, rfl, hselected, hmemory, hwrote⟩
      · exact .inl ⟨rfl, rfl, hnone⟩
      · have hentry : t.memory.entry id = (s.memory.withStatus id .deleted).entry id := by
          rw [hmemory]
          rfl
        have hlive : t.memory.live[(t.memory.entry id).uuid]? = some id := by
          obtain ⟨hlt, huuid⟩ := hindexed uuid id (live_of_selected hselected)
          rw [hentry, MessageIndex.withStatus,
            @MessageIndex.entry_of_modify s.memory _ id ({ · with status := .deleted }) rfl,
            if_pos ⟨rfl, hlt⟩, hmemory]
          show s.memory.live[(s.memory.entry id).uuid]? = some id
          rw [huuid]
          exact live_of_selected hselected
        simp only [MessageIndex.leaveLive, MessageIndex.leaveOrdered, leads_bind, leads_memory,
          leads_ite, leads_update, leads_pure, if_pos hlive]
        refine .inr ⟨id, rfl, hselected, ?_, hwrote⟩
        show ({ t.memory with
          live := _
          ordered := t.memory.ordered.erase (t.memory.entry id).position } : MessageIndex) = _
        rw [hentry, hmemory]
        rfl

/-- The call does all it has to do, or nothing. If it fails, the message has moved in memory and
stands where it stood. -/
theorem onIndex_moves (c : StatusCall) (hindexed : s.memory.Indexed) :
    c.onIndex.Leads s
      (fun _ t => c.selected? s.memory = none ∧ t = s
        ∨ ∃ id, c.selected? s.memory = some id
          ∧ t.memory = { c.done s.memory id with file := t.memory.file })
      fun _ t => ∃ id, c.selected? s.memory = some id
        ∧ t.memory = { c.moved s.memory id with file := t.memory.file } := by
  have hpersist (id : EntryId) : Keeps (fun m => m = { c.moved s.memory id with file := m.file })
      (MessageIndex.persistStatus id) :=
    keeps_memory.bind fun _ => MessageIndex.keeps_onFile_of _ fun _ _ hm => by rw [hm]
  refine (c.onIndex_selects hindexed (fun _ _ _ => True)
    (fun id _ t => t.memory = { c.moved s.memory id with file := t.memory.file }) fun id _ =>
      (hpersist id _ rfl).mono (fun _ _ ht => ⟨ht, trivial⟩) fun _ _ ht => ht).mono
    (fun _ t ht => ?_) fun _ _ ht => ht
  rcases ht with ⟨-, ht, hnone⟩ | ⟨id, -, hselected, hdone, -⟩
  · exact .inl ⟨hnone, ht⟩
  · exact .inr ⟨id, hselected, hdone⟩

end StatusCall

end PagedQueue
