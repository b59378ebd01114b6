import PagedQueue.Proofs.IndexReferences
import PagedQueue.Proofs.UniqueMessages

/-!
# Messages that could not be finished

A message that is finished leaves the two indexes after its status is written. Where the record
cannot be written the call ends before that, and the status has moved in memory: both indexes still
lead to the message, which is not in the queue any more (`MessageIndex.Strands`). No later call
finds it, so it stays as long as the index does. Its UUID is refused, and it counts.

No other failure does this. A push that fails has entered neither index, and a message that could
not be locked or given back is in the queue either way. So both indexes hold the same messages at
any time, and the messages in the queue are all of them but those that were stranded
(`stranded_messages_stay`).
-/

namespace PagedQueue

open Procedure

namespace HeldCall

/-- The UUID of the message that the call is to finish. -/
def finishing? : HeldCall → Option Uuid
  | change (.move .finish uuid) => some uuid
  | _ => none

/-- The UUID of the message that the call has stranded, by its answer. -/
def stranded? (c : HeldCall) : Except Fault Unit → Option Uuid
  | .ok _ => none
  | .error _ => c.finishing?

/-- Whether the call leaves the index what it is. -/
def GoesOn (c : HeldCall) : Prop := c ≠ startEmpty ∧ c ≠ recover

end HeldCall

namespace MessageIndex

/-- The calls that were made, and how each was answered. -/
abbrev History := List (HeldCall × Except Fault Unit)

/-- The UUIDs of the messages that could not be finished. -/
def History.stranded (history : History) : List Uuid :=
  history.filterMap fun call => call.1.stranded? call.2

/-- What an index becomes by calls that follow one another, while others change the disk in
between. -/
inductive Served (s : Session MessageIndex) : History → Session MessageIndex → Prop
  | none : Served s [] s
  | disturbed {history : History} {t : Session MessageIndex} (before : Served s history t)
    (host : Host) :
    Served s history ⟨host, t.memory⟩
  | call {history : History} {t : Session MessageIndex} (before : Served s history t) (c : HeldCall)
    (hgoing : c.GoesOn) (hheld : ∀ uuid, c.held? = some uuid →
      t.memory.pending.contains uuid = true) :
    Served s (history ++ [(c, (c.procedure.outcome t).1)]) (c.procedure.outcome t).2

variable {m n : MessageIndex} {id : EntryId} {uuid : Uuid} {stranded : List Uuid}
    {s : Session MessageIndex}

/-! ## Both indexes lead to the same messages -/

/-- What a UUID leads to stands in the order of creation under its position. It is in the queue,
unless the UUID is one of those stranded: these lead to messages that are finished. -/
structure Strands (stranded : List Uuid) (m : MessageIndex) : Prop where
  placed : ∀ {uuid : Uuid} {id}, m.live[uuid]? = some id →
    m.ordered[(m.entry id).position]? = some id
  status : ∀ {uuid : Uuid} {id}, m.live[uuid]? = some id →
    (m.entry id).status = .deleted ∧ uuid ∈ stranded ∨ (m.entry id).status.isLive = true
    ∧ uuid ∉ stranded
  known : ∀ {uuid}, uuid ∈ stranded → m.live.contains uuid = true

namespace Strands

theorem congr (h : m.Strands stranded) (hentries : n.entries = m.entries) (hlive : n.live = m.live)
    (hordered : n.ordered = m.ordered) : n.Strands stranded := by
  have hentry (id : EntryId) : n.entry id = m.entry id := by rw [entry, hentries, entry]
  refine ⟨fun hid => ?_, fun hid => ?_, fun huuid => hlive ▸ h.known huuid⟩
  · rw [hentry, hordered]
    exact h.placed (hlive ▸ hid)
  · rw [hentry]
    exact h.status (hlive ▸ hid)

/-- Where messages are held, none is stranded. -/
theorem of_holds {held : Nat → Option Entry} (h : m.Holds held) : m.Strands [] := by
  refine ⟨fun {uuid id} hid => ?_, fun {uuid id} hid => ?_, nofun⟩
  all_goals obtain ⟨p, hp, -⟩ := (h.live_iff uuid id).mp hid
  · rwa [h.queued.position (h.held_of_ordered hp)]
  · exact .inr ⟨h.queued.isLive (h.held_of_ordered hp), List.not_mem_nil⟩

/-- An entry is made and leads nowhere yet. -/
theorem make {e : Entry} (h : m.Strands stranded) (hindexed : m.Indexed)
    (hentries : n.entries = m.entries.push e) (hlive : n.live = m.live)
    (hordered : n.ordered = m.ordered) :
    n.Strands stranded := by
  have hentry {uuid : Uuid} {id : EntryId} (hid : m.live[uuid]? = some id) :
      n.entry id = m.entry id :=
    entry_of_push hentries (hindexed uuid id hid).1
  refine ⟨fun hid => ?_, fun hid => ?_, fun huuid => hlive ▸ h.known huuid⟩ <;> rw [hlive] at hid
  · rw [hentry hid, hordered]
    exact h.placed hid
  · rw [hentry hid]
    exact h.status hid

/-- A message enters both indexes whose UUID leads nowhere, under a position that was not given
out. -/
theorem enter {e : Entry} (h : m.Strands stranded) (hfiled : m.Filed)
    (hnew : m.live[e.uuid]? = none)
    (hposition : e.position = m.next) (hqueued : e.status.isLive = true)
    (hentries : n.entries = m.entries.push e) (hlive : n.live = m.live.insert e.uuid m.entries.size)
    (hordered : n.ordered = m.ordered.insert e.position m.entries.size) : n.Strands stranded := by
  have hself : n.entry m.entries.size = e := entry_of_push_self hentries
  have hunstranded : e.uuid ∉ stranded := fun hmem => by
    have hknown := h.known hmem
    rw [Std.TreeMap.contains_eq_isSome_getElem?, hnew] at hknown
    cases hknown
  have hcases {uuid : Uuid} {id : EntryId} (hid : n.live[uuid]? = some id) :
      uuid = e.uuid ∧ id = m.entries.size ∨ m.live[uuid]? = some id ∧ n.entry id = m.entry id := by
    rw [hlive, Std.TreeMap.getElem?_insert] at hid
    split at hid
    next heq =>
      exact .inl ⟨(Std.LawfulEqCmp.compare_eq_iff_eq.mp heq).symm, (Option.some.inj hid).symm⟩
    next => exact .inr ⟨hid, entry_of_push hentries (hfiled.indexed _ _ hid).1⟩
  refine ⟨fun {uuid id} hid => ?_, fun {uuid id} hid => ?_, fun hmem => ?_⟩
  · rw [hordered, Std.TreeMap.getElem?_insert]
    rcases hcases hid with ⟨-, rfl⟩ | ⟨hid, hentry⟩
    · rw [hself, if_pos Std.ReflCmp.compare_self]
    · have hplaced := h.placed hid
      rw [hentry, if_neg, hplaced]
      intro heq
      have hlt := hfiled.lt_next hplaced
      rw [← Nat.compare_eq_eq.mp heq, hposition] at hlt
      exact Nat.lt_irrefl _ hlt
  · rcases hcases hid with ⟨rfl, rfl⟩ | ⟨hid, hentry⟩
    · rw [hself]
      exact .inr ⟨hqueued, hunstranded⟩
    · rw [hentry]
      exact h.status hid
  · rw [hlive, Std.TreeMap.contains_insert, h.known hmem, Bool.or_true]

/-- The status of a message changes, and its UUID is stranded if the message is finished with
that. -/
theorem withStatus {stranded' : List Uuid} (h : m.Strands stranded) (hindexed : m.Indexed)
    (hid : m.live[uuid]? = some id) {status : Status}
    (hself : status = .deleted ∧ uuid ∈ stranded' ∨ status.isLive = true ∧ uuid ∉ stranded')
    (hother : ∀ other ≠ uuid, other ∈ stranded' ↔ other ∈ stranded) :
    (m.withStatus id status).Strands stranded' := by
  obtain ⟨hlt, huuid⟩ := hindexed uuid id hid
  have hentry (other : EntryId) : (m.withStatus id status).entry other
      = if id = other ∧ other < m.entries.size then { m.entry other with status }
      else m.entry other :=
    @entry_of_modify m _ id ({ · with status }) rfl other
  refine ⟨fun {other id'} hid' => ?_, fun {other id'} hid' => ?_, fun {other} hmem => ?_⟩
  · have hposition : ((m.withStatus id status).entry id').position = (m.entry id').position := by
      rw [hentry]
      split <;> rfl
    rw [hposition]
    exact h.placed hid'
  · change m.live[other]? = some id' at hid'
    by_cases heq : id' = id
    · subst heq
      obtain rfl : other = uuid := (hindexed other _ hid').2.symm.trans huuid
      rw [hentry, if_pos ⟨rfl, hlt⟩]
      exact hself
    · have hne : other ≠ uuid := by
        rintro rfl
        exact heq (Option.some.inj (hid'.symm.trans hid))
      rw [hentry, if_neg fun hand => heq hand.1.symm, hother other hne]
      exact h.status hid'
  · change m.live.contains other = true
    by_cases heq : other = uuid
    · rw [heq, Std.TreeMap.contains_eq_isSome_getElem?, hid]
      rfl
    · exact h.known ((hother other heq).mp hmem)

/-- The message that was stranded last leaves both indexes after all. -/
theorem without (h : m.Strands (stranded ++ [uuid])) (hindexed : m.Indexed)
    (hid : m.live[uuid]? = some id)
    (hfree : uuid ∉ stranded) : (m.without id).Strands stranded := by
  obtain ⟨-, huuid⟩ := hindexed uuid id hid
  have hstays {other : Uuid} {id' : EntryId} (hid' : (m.without id).live[other]? = some id') :
      m.live[other]? = some id' ∧ other ≠ uuid := by
    change (m.live.erase (m.entry id).uuid)[other]? = some id' at hid'
    rw [huuid, Std.TreeMap.getElem?_erase] at hid'
    split at hid'
    · cases hid'
    next hne => exact ⟨hid', fun heq => hne (Std.LawfulEqCmp.compare_eq_iff_eq.mpr heq.symm)⟩
  refine ⟨fun {other id'} hid' => ?_, fun hid' => ?_, fun {other} hmem => ?_⟩
  · obtain ⟨hid', hne⟩ := hstays hid'
    change (m.ordered.erase (m.entry id).position)[(m.entry id').position]? = some id'
    rw [Std.TreeMap.getElem?_erase, if_neg]
    · exact h.placed hid'
    · intro heq
      -- two messages under one position would be the same one
      have hplaced := h.placed hid
      rw [Nat.compare_eq_eq.mp heq, h.placed hid'] at hplaced
      cases hplaced
      exact hne ((hindexed other _ hid').2.symm.trans huuid)
  · obtain ⟨hid', hne⟩ := hstays hid'
    have hstatus := h.status hid'
    simp only [List.mem_append, List.mem_singleton, hne, or_false] at hstatus
    exact hstatus
  · change (m.live.erase (m.entry id).uuid).contains other = true
    have hne : uuid ≠ other := fun heq => hfree (heq ▸ hmem)
    rw [huuid, Std.TreeMap.contains_erase, h.known (List.mem_append_left _ hmem), Bool.and_true]
    simpa using hne

end Strands

/-! ## Calls -/

/-- A push makes an entry, and if it succeeds the entry is in both indexes. -/
theorem push_enters (s : Session MessageIndex) (d : Draft) :
    (push d.uuid d.offset d.length d.kind).Leads s
      (fun _ t => ∃ (file : PagedFile) (count : Nat), t.memory = { s.memory with
        file, count
        entries := s.memory.entries.push (d.entry s.memory.next)
        live := s.memory.live.insert d.uuid s.memory.entries.size
        ordered := s.memory.ordered.insert s.memory.next s.memory.entries.size
        pending := s.memory.pending.erase d.uuid
        next := s.memory.next + 1 })
      fun _ t => ∃ (file : PagedFile) (count : Nat), t.memory = { s.memory with
        file, count
        entries := s.memory.entries.push (d.entry s.memory.next)
        pending := s.memory.pending.erase d.uuid
        next := s.memory.next + 1 } := by
  let made (m : MessageIndex) : Prop := ∃ (file : PagedFile) (count : Nat), m = { s.memory with
    file, count
    entries := s.memory.entries.push (d.entry s.memory.next)
    next := s.memory.next + 1 }
  have hfile {α : Type} (p : Procedure PagedFile α) : Keeps made (onFile p) :=
    keeps_onFile_of p fun _ file hm => by
      obtain ⟨-, count, rfl⟩ := hm
      exact ⟨file, count, rfl⟩
  have hraise : Keeps made (raiseCount (s.memory.next + 1)) :=
    keeps_raiseCount (hfile _) fun _ hm => by
    obtain ⟨file, -, rfl⟩ := hm
    exact ⟨file, _, rfl⟩
  unfold push publish takePosition addEntry writeRecord withdraw enterLive enterOrdered
  simp only [leads_tryFinally, leads_bind, leads_memory, leads_update, leads_pure]
  refine (hfile _ ⟨s.host, { s.memory with
    next := s.memory.next + 1, entries := s.memory.entries.push (d.entry s.memory.next) }⟩
    ⟨s.memory.file, s.memory.count, rfl⟩).mono (fun _ t ht => ?_) fun _ t ht => ?_
  · refine (hraise t ht).mono (fun _ u hu => ?_) fun _ u hu => ?_
    all_goals
      obtain ⟨file, count, hu⟩ := hu
      exact ⟨file, count, by rw [hu]⟩
  · obtain ⟨file, count, ht⟩ := ht
    exact ⟨file, count, by rw [ht]⟩

/-- A UUID is refused that is reserved or leads somewhere. Neither index is touched. -/
theorem reserve_answers (s : Session MessageIndex) (uuid : Uuid) :
    (reserve uuid).Ensures s fun granted t =>
      (granted = false ↔ s.memory.pending.contains uuid = true ∨ s.memory.live.contains uuid = true)
        ∧ ∃ pending : Std.TreeSet Uuid, t.memory = { s.memory with pending } := by
  unfold reserve notePending withdraw Ensures
  simp only [leads_bind, leads_memory, leads_ite, leads_update, leads_pure]
  split
  next hpending => exact ⟨iff_of_true trivial (.inl hpending), _, rfl⟩
  next hpending =>
    simp only [Bool.not_true, Bool.false_eq_true, if_false]
    split
    next hlive => exact ⟨iff_of_true trivial (.inr hlive), _, rfl⟩
    next hlive =>
      exact ⟨iff_of_false Bool.false_ne_true.symm (not_or.mpr ⟨hpending, hlive⟩), _, rfl⟩

end MessageIndex

namespace StatusCall

variable {m : MessageIndex} {id : EntryId} {stranded : List Uuid} {s : Session MessageIndex}

/-- The UUID of the message that a call selects leads to it. -/
theorem live_of_selects {c : StatusCall} (h : c.selected? m = some id) (hfiled : m.Filed) :
    m.live[(m.entry id).uuid]? = some id := by
  cases c with
  | move k uuid =>
    have hlive := live_of_selected h
    rw [(hfiled.indexed uuid id hlive).2]
    exact hlive
  | pop =>
    obtain ⟨p, hp⟩ := MessageIndex.exists_position_of_oldestNew? h
    exact hfiled.live hp

/-- What is stranded is not selected. -/
theorem not_mem_of_selects {c : StatusCall} (hfiled : m.Filed) (h : m.Strands stranded)
    (hselected : c.selected? m = some id) : (m.entry id).uuid ∉ stranded := by
  rcases h.status (live_of_selects hselected hfiled) with ⟨hdeleted, -⟩ | ⟨-, hfree⟩
  · rw [status_of_selected hselected] at hdeleted
    cases hkind : c.kind <;> rw [hkind] at hdeleted <;> cases hdeleted
  · exact hfree

/-- A message that has moved is in the queue still, unless it was to be finished: it is stranded
now. -/
theorem moved_strands {c : StatusCall} (hfiled : m.Filed) (h : m.Strands stranded)
    (hselected : c.selected? m = some id) :
    (c.moved m id).Strands (stranded ++ (HeldCall.change c).finishing?.toList) := by
  have hid := live_of_selects hselected hfiled
  have hfree := not_mem_of_selects hfiled h hselected
  have hstays (status : Status) (hlive : status.isLive = true) :
      (m.withStatus id status).Strands (stranded ++ []) := by
    rw [List.append_nil]
    exact h.withStatus hfiled.indexed hid (.inr ⟨hlive, hfree⟩) fun _ _ => Iff.rfl
  match c with
  | .pop => exact hstays .locked rfl
  | .move .lock uuid => exact hstays .locked rfl
  | .move .rollback uuid => exact hstays .new rfl
  | .move .finish uuid =>
    rw [(hfiled.indexed uuid id (live_of_selected hselected)).2] at hid hfree
    exact h.withStatus hfiled.indexed hid (.inl ⟨rfl, by simp [HeldCall.finishing?]⟩)
      fun other hne => by
      simp [HeldCall.finishing?, hne]

/-- A message for which the call has done all is in the queue or has left it. -/
theorem done_strands {c : StatusCall} (hfiled : m.Filed) (h : m.Strands stranded)
    (hselected : c.selected? m = some id) : (c.done m id).Strands stranded := by
  have hmoved := moved_strands hfiled h hselected
  have hstays (hmoved : (c.moved m id).Strands (stranded ++ [])) :
      (c.moved m id).Strands stranded := by
    rwa [List.append_nil] at hmoved
  match c with
  | .pop => exact hstays hmoved
  | .move .lock uuid => exact hstays hmoved
  | .move .rollback uuid => exact hstays hmoved
  | .move .finish uuid =>
    have hid := live_of_selected hselected
    have hfree := not_mem_of_selects hfiled h hselected
    rw [(hfiled.indexed uuid id hid).2] at hfree
    exact hmoved.without (hfiled.withStatus id .deleted).indexed hid hfree

/-- A call that is to finish a message and fails strands it. Nothing else is stranded. -/
theorem onIndex_strands (hfiled : s.memory.Filed) (h : s.memory.Strands stranded) (c : StatusCall) :
    c.onIndex.Leads s (fun _ t => t.memory.Strands stranded) fun _ t =>
      t.memory.Strands (stranded ++ (HeldCall.change c).finishing?.toList)
        ∧ ∀ uuid, (HeldCall.change c).finishing? = some uuid → uuid ∉ stranded := by
  refine (c.onIndex_moves hfiled.indexed).mono (fun _ t ht => ?_) fun _ t ht => ?_
  · rcases ht with ⟨-, rfl⟩ | ⟨id, hselected, ht⟩
    · exact h
    · rw [ht]
      exact (done_strands hfiled h hselected).congr rfl rfl rfl
  · obtain ⟨id, hselected, ht⟩ := ht
    rw [ht]
    refine ⟨(moved_strands hfiled h hselected).congr rfl rfl rfl, fun uuid huuid => ?_⟩
    match c with
    | .move .finish _ =>
      cases huuid
      have hfree := not_mem_of_selects hfiled h hselected
      rwa [(hfiled.indexed uuid id (live_of_selected hselected)).2] at hfree

end StatusCall

namespace HeldCall

variable {stranded : List Uuid} {s : Session MessageIndex}

/-- What a call strands is what its answer says, and was not stranded before. -/
theorem strands (hdistinct : s.memory.Distinct) (h : s.memory.Strands stranded) (c : HeldCall)
    (hgoing : c.GoesOn) (hheld : ∀ uuid, c.held? = some uuid →
      s.memory.pending.contains uuid = true) :
    (c.procedure.outcome s).2.memory.Strands
        (stranded ++ (c.stranded? (c.procedure.outcome s).1).toList)
      ∧ ∀ uuid, c.stranded? (c.procedure.outcome s).1 = some uuid → uuid ∉ stranded := by
  refine @Leads.answered _ _ c.procedure s (fun answer t =>
    t.memory.Strands (stranded ++ (c.stranded? answer).toList)
      ∧ ∀ uuid, c.stranded? answer = some uuid → uuid ∉ stranded) ?_
  have hnone {m : MessageIndex} (hm : m.Strands stranded) :
      m.Strands (stranded ++ (none : Option Uuid).toList) ∧ ∀ uuid, none = some uuid →
      uuid ∉ stranded :=
    ⟨(List.append_nil stranded).symm ▸ hm, nofun⟩
  cases c with
  | startEmpty => exact absurd rfl hgoing.1
  | recover => exact absurd rfl hgoing.2
  | reserve uuid =>
    refine (leads_discard _).mpr ((MessageIndex.reserve_answers s uuid).mono fun _ t ht => ?_).leads
    obtain ⟨-, pending, ht⟩ := ht
    rw [ht]
    exact hnone (h.congr rfl rfl rfl)
  | withdraw uuid => exact hnone (h.congr rfl rfl rfl)
  | push d =>
    refine (leads_discard _).mpr ((MessageIndex.push_enters s d).mono
      (fun _ t ht => ?_) fun _ t ht => ?_)
    · obtain ⟨file, count, ht⟩ := ht
      rw [ht]
      exact hnone (h.enter hdistinct.toFiled (hdistinct.reserved (hheld _ rfl)) rfl rfl rfl rfl rfl)
    · obtain ⟨file, count, ht⟩ := ht
      rw [ht]
      exact hnone (h.make hdistinct.indexed rfl rfl rfl)
  | change c =>
    exact (leads_discard _).mpr ((c.onIndex_strands hdistinct.toFiled h).mono
      (fun _ _ => hnone) fun _ _ => id)

end HeldCall

namespace MessageIndex

variable {s t : Session MessageIndex} {history : History} {m : MessageIndex} {id : EntryId}
    {uuid : Uuid}

/-! ## Histories -/

/-- Messages stay apart, both indexes lead to the same ones, and no message is stranded twice. -/
structure Serving (history : History) (m : MessageIndex) : Prop extends Distinct m where
  strands : m.Strands history.stranded
  nodup : history.stranded.Nodup

theorem stranded_concat (history : History) (c : HeldCall) (answer : Except Fault Unit) :
    History.stranded (history ++ [(c, answer)])
      = history.stranded ++ (c.stranded? answer).toList := by
  simp only [History.stranded, List.filterMap_append, List.filterMap_cons, List.filterMap_nil]
  cases c.stranded? answer <;> rfl

/-- An index that was just started or recovered has stranded no message. -/
theorem serving_nil (hs : Begun s)
    (hidle : ∀ uuid, s.memory.pending.contains uuid = true → s.memory.live[uuid]? = none) :
    Serving [] s.memory := by
  obtain ⟨-, held, hholds, hheld⟩ := hs.holds
  refine ⟨⟨⟨hholds.indexed, fun hid => (hheld _ _ (hholds.held_of_ordered hid)).1, hholds.lt_size,
    fun hid => hholds.queued.position (hholds.held_of_ordered hid),
    fun {p id} hid => (hholds.live_iff _ id).mpr ⟨p, hid, rfl⟩⟩, hidle _⟩, .of_holds hholds,
      List.nodup_nil⟩

theorem Served.serving (h : Served s history t) (hs : Serving [] s.memory) :
    Serving history t.memory := by
  induction h with
  | none => exact hs
  | disturbed _ _ ih => exact ih
  | @call history t _ c hgoing hheld ih =>
    obtain ⟨hstrands, hfree⟩ := c.strands ih.toDistinct ih.strands hgoing hheld
    refine ⟨c.distinct ih.toDistinct hheld fun hrecover => absurd hrecover hgoing.2, ?_, ?_⟩
      <;> rw [stranded_concat]
    · exact hstrands
    · cases hstranded : c.stranded? (c.procedure.outcome t).1 with
      | none => simpa using ih.nodup
      | some uuid =>
        refine List.Nodup.append ih.nodup (List.nodup_singleton uuid)
          (List.disjoint_singleton.mpr ?_)
        exact hfree uuid hstranded

namespace Serving

/-- What a UUID leads to is in the queue, or it is finished and was stranded. -/
theorem status?_cases (h : Serving history m) (hid : m.live[uuid]? = some id) :
    uuid ∈ history.stranded ∧ (m.entry id).status = .deleted ∧ m.status? uuid = none
      ∨ uuid ∉ history.stranded ∧ ((m.entry id).status = .new ∨ (m.entry id).status = .locked)
        ∧ m.status? uuid = some (m.entry id).status := by
  rw [status?, find?, hid]
  rcases h.strands.status hid with ⟨hdeleted, hmem⟩ | ⟨hlive, hfree⟩
  · exact .inl ⟨hmem, hdeleted, by simp [hdeleted, Status.isLive]⟩
  · refine .inr ⟨hfree, ?_, by simp [hlive]⟩
    cases hstatus : (m.entry id).status <;> rw [hstatus] at hlive
    · cases hlive
    · exact .inl rfl
    · exact .inr rfl
    · cases hlive

/-- Every message counts, also one that was stranded. -/
theorem size_eq (h : Serving history m) :
    m.size = (m.live.keys.filter fun uuid =>
      (m.status? uuid).isSome).length + history.stranded.length := by
  have hmem (uuid : Uuid) : uuid ∈ m.live.keys ↔ m.live.contains uuid = true := by
    rw [Std.TreeMap.mem_keys, Std.TreeMap.mem_iff_contains]
  have hnodup : m.live.keys.Nodup := by
    refine m.live.distinct_keys.imp fun hne heq => hne ?_
    rw [heq]
    exact Std.ReflCmp.compare_self
  -- the UUIDs that lead to no message in the queue are those stranded
  have hstranded :
      (m.live.keys.filter fun uuid => !(m.status? uuid).isSome).Perm history.stranded := by
    refine (List.perm_ext_iff_of_nodup (hnodup.filter _) h.nodup).mpr fun uuid => ?_
    rw [List.mem_filter, hmem]
    constructor
    · rintro ⟨hknown, hnone⟩
      rw [Std.TreeMap.contains_eq_isSome_getElem?, Option.isSome_iff_exists] at hknown
      obtain ⟨id, hid⟩ := hknown
      rcases h.status?_cases hid with ⟨hstranded, -⟩ | ⟨-, -, hstatus⟩
      · exact hstranded
      · rw [hstatus] at hnone
        cases hnone
    · intro hstranded
      have hknown := h.strands.known hstranded
      refine ⟨hknown, ?_⟩
      rw [Std.TreeMap.contains_eq_isSome_getElem?, Option.isSome_iff_exists] at hknown
      obtain ⟨id, hid⟩ := hknown
      rcases h.status?_cases hid with ⟨-, -, hstatus⟩ | ⟨hfree, -⟩
      · rw [hstatus]
        rfl
      · exact absurd hstranded hfree
  rw [MessageIndex.size, ← Std.TreeMap.length_keys, ← hstranded.length_eq]
  exact List.length_eq_length_filter_add _

end Serving

/-- Calls follow one another after an index was started or recovered, with any number of
reservations held meanwhile, and each may fail, as others change the disk in between. At any time
both indexes hold the same messages, and these are in the queue but for those that could not be
finished. Such a message is never taken out again: it counts, and its UUID is refused as that of a
message in the queue is. -/
theorem stranded_messages_stay (hs : Begun s)
    (hidle : ∀ uuid, s.memory.pending.contains uuid = true → s.memory.live[uuid]? = none)
    (h : Served s history t) :
    (∀ (p : Nat) (id : EntryId), t.memory.ordered[p]? = some id
      ↔ (t.memory.entry id).position = p ∧ t.memory.live[(t.memory.entry id).uuid]? = some id)
    ∧ (∀ (uuid : Uuid) (id : EntryId), t.memory.live[uuid]? = some id →
      (t.memory.entry id).uuid = uuid ∧ if uuid ∈ history.stranded
        then (t.memory.entry id).status = .deleted
        else (t.memory.entry id).status = .new ∨ (t.memory.entry id).status = .locked)
    ∧ (∀ uuid ∈ history.stranded, t.memory.live.contains uuid = true)
    ∧ t.memory.size = (t.memory.live.keys.filter fun uuid => (t.memory.status? uuid).isSome).length
      + history.stranded.length
    ∧ ∀ uuid, (reserve uuid).Ensures t fun granted _ => granted = false
      ↔ t.memory.pending.contains uuid = true ∨ t.memory.status? uuid = some .new
        ∨ t.memory.status? uuid = some .locked ∨ uuid ∈ history.stranded := by
  have hserving := h.serving (serving_nil hs hidle)
  refine ⟨fun p id => ⟨fun hid => ⟨hserving.position hid, hserving.live hid⟩, ?_⟩,
    fun uuid id hid => ?_, fun _ => hserving.strands.known, hserving.size_eq, fun uuid => ?_⟩
  · rintro ⟨rfl, hid⟩
    exact hserving.strands.placed hid
  · refine ⟨(hserving.indexed uuid id hid).2, ?_⟩
    rcases hserving.status?_cases hid with ⟨hmem, hdeleted, -⟩ | ⟨hfree, hlive, -⟩
    · rwa [if_pos hmem]
    · rwa [if_neg hfree]
  · refine (reserve_answers t uuid).mono fun granted _ hgranted => hgranted.1.trans
      (or_congr_right ?_)
    rw [Std.TreeMap.contains_eq_isSome_getElem?]
    cases hid : t.memory.live[uuid]? with
    | none =>
      have hnone : t.memory.status? uuid = none := by rw [status?, find?, hid]; rfl
      have hfree : uuid ∉ history.stranded := fun hmem => by
        have hknown := hserving.strands.known hmem
        rw [Std.TreeMap.contains_eq_isSome_getElem?, hid] at hknown
        cases hknown
      simp [hnone, hfree]
    | some id =>
      rcases hserving.status?_cases hid with ⟨hmem, -⟩ | ⟨-, hlive, hstatus⟩
      · simp [hmem]
      · rcases hlive with hlive | hlive <;> simp [hstatus, hlive]

private theorem narrow_pos : 0 < 8 := by decide

/-- An index in a directory that is still empty, with pages of eight bytes that are closed as soon
as nobody uses them. -/
def narrowDirectory : Session MessageIndex :=
  ⟨emptyDirectory.host, { file := { store := {
    directory := ["meta"]
    pageSize := 8
    pageSize_pos := narrow_pos
    lifetime := 0 } } }⟩

/-- It is started from nothing. -/
def narrowIndex : Session MessageIndex := (startEmpty.outcome narrowDirectory).2

theorem begun_narrowIndex : Begun narrowIndex := by
  have hsound : narrowDirectory.host.disk.Sound :=
    (Disk.fresh_new []).sound.apply (.makeDirectory ["meta"]) 0
  have hstarted : (startEmpty.outcome narrowDirectory).1.toOption = some () := by decide +kernel
  exact ⟨narrowDirectory, ⟨hsound, .of_cached_empty rfl⟩, by decide +kernel,
    .inl (outcome_ok_iff.mp (Prod.ext (ok_of_toOption hstarted) rfl))⟩

theorem idle_narrowIndex (uuid : Uuid) : narrowIndex.memory.pending.contains uuid = false := by
  have hnone : narrowIndex.memory.pending.isEmpty = true := by decide +kernel
  exact Std.TreeSet.contains_of_isEmpty hnone

/-- A message is locked, and another one comes in. -/
def whileLocked : Session MessageIndex :=
  [.reserve ⟨1⟩, .push ⟨⟨1⟩, 0, 0, .text⟩, .change (.move .lock ⟨1⟩), .reserve ⟨2⟩,
    .push ⟨⟨2⟩, 0, 0, .text⟩].foldl (fun s (c : HeldCall) => (c.procedure.outcome s).2) narrowIndex

/-- A directory takes the place of the page in which the status of the first message is stored. -/
def withoutStatus : Session MessageIndex :=
  let path := Disk.pagePath ["meta"] 3
  ⟨{ whileLocked.host with
    disk :=
      (Change.makeDirectory path).apply 0 ((Change.unlink path).apply 0 whileLocked.host.disk) },
    whileLocked.memory⟩

/-- The first message is to be finished. -/
def stranding : Except Fault Unit × Session MessageIndex :=
  (HeldCall.change (.move .finish ⟨1⟩)).procedure.outcome withoutStatus

theorem served_stranding : ∃ history : History, Served narrowIndex history stranding.2
    ∧ history.stranded = [⟨1⟩] := by
  have hfirst : ((HeldCall.reserve ⟨1⟩).procedure.outcome narrowIndex).2.memory.pending.contains ⟨1⟩
      = true := by decide +kernel
  have hsecond : ((HeldCall.reserve ⟨2⟩).procedure.outcome
      ([.reserve ⟨1⟩, .push ⟨⟨1⟩, 0, 0, .text⟩, .change (.move .lock ⟨1⟩)].foldl
        (fun s (c : HeldCall) => (c.procedure.outcome s).2) narrowIndex)).2.memory.pending.contains
          ⟨2⟩ = true := by decide +kernel
  have hlocked :=
    ((Served.none.call (.reserve ⟨1⟩) ⟨nofun, nofun⟩ nofun).call (.push ⟨⟨1⟩, 0, 0, .text⟩)
    ⟨nofun, nofun⟩ (by rintro _ ⟨⟩; exact hfirst)).call (.change (.move .lock ⟨1⟩))
    ⟨nofun, nofun⟩ nofun
  have hpushed := (hlocked.call (.reserve ⟨2⟩) ⟨nofun, nofun⟩ nofun).call (.push ⟨⟨2⟩, 0, 0, .text⟩)
    ⟨nofun, nofun⟩ (by rintro _ ⟨⟩; exact hsecond)
  exact ⟨_, (hpushed.disturbed withoutStatus.host).call (.change (.move .finish ⟨1⟩))
    ⟨nofun, nofun⟩ nofun, by decide +kernel⟩

/-- Of two messages one could not be finished. It counts, and its UUID is refused. -/
theorem stranded_messages_stay_blocked : ∃ history : History, Served narrowIndex history stranding.2
    ∧ stranding.2.memory.live.contains ⟨1⟩ = true ∧ stranding.2.memory.size = 2
    ∧ (reserve ⟨1⟩).Ensures stranding.2 fun granted _ => granted = false := by
  obtain ⟨history, hserved, hstranded⟩ := served_stranding
  obtain ⟨-, -, hknown, hsize, hrefused⟩ :=
    stranded_messages_stay begun_narrowIndex
    (fun uuid hreserved => by rw [idle_narrowIndex] at hreserved; cases hreserved) hserved
  have hqueued : (stranding.2.memory.live.keys.filter fun uuid =>
      (stranding.2.memory.status? uuid).isSome) = [⟨2⟩] := by decide +kernel
  rw [hqueued, hstranded] at hsize
  exact ⟨history, hserved,
    hknown ⟨1⟩ (by simp [hstranded]), hsize, (hrefused ⟨1⟩).mono fun _ _ hrefused =>
    hrefused.mpr (.inr (.inr (.inr (by simp [hstranded]))))⟩

/-- A message is finished as its status says, and nothing is reserved; but it counts, and its UUID
is refused. -/
theorem finished_message_refused : ∃ (s : Session MessageIndex) (history : History)
    (t : Session MessageIndex), Begun s ∧ (∀ uuid, s.memory.pending.contains uuid = false)
      ∧ Served s history t
      ∧ t.memory.ordered[0]? = some 0 ∧ (t.memory.entry 0).status = .deleted
      ∧ t.memory.live.keys = [⟨1⟩, ⟨2⟩] ∧ t.memory.status? ⟨1⟩ = none ∧ t.memory.size = 2
      ∧ t.memory.pending.contains ⟨1⟩ = false
      ∧ ((reserve ⟨1⟩).outcome t).1.toOption = some false := by
  obtain ⟨history, hserved, -⟩ := served_stranding
  exact ⟨narrowIndex, history, stranding.2, begun_narrowIndex, idle_narrowIndex, hserved,
    by decide +kernel⟩

end MessageIndex

end PagedQueue
