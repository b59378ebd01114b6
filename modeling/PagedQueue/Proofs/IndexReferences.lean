import PagedQueue.Proofs.ExclusiveClients
import PagedQueue.Proofs.FoundDirectories
import PagedQueue.Proofs.IndexRecovery

/-!
# Which entries clients come upon

A client comes upon an entry through one of the two indexes, or it has come upon it before
(`Reaches`). An entry that a client has made is its own until it enters the indexes: no other client
comes upon it, and it stays as it was made. All entries that count have positions of their own
(`Accounted.position_injective`).
-/

namespace PagedQueue

open Procedure
open MessageIndex (bytesOf pagesOf)
open PageStore (Ready)

namespace IndexStage

/-- The entries whose status a client may move, or which it may take out of the indexes. -/
def aims : IndexStage → List EntryId
  | .checkStatus _ id | .setStatus _ id | .persist _ id | .leaveLive id | .leaveOrdered id => [id]
  | .takeFirst ids => ids
  | _ => []

/-- The entry that a client puts into one of the indexes. -/
def entering? : IndexStage → Option EntryId
  | .enterLive _ id | .enterOrdered _ id => some id
  | _ => none

variable {k k' : IndexStage} {m m' : MessageIndex} {id : EntryId} {e : Entry}

@[simp]
theorem aims_start (call : IndexCall) : (start call).aims = [] := by
  cases call <;> rfl

theorem owned?_of_entering? (h : k.entering? = some id) : k.owned? = some id := by
  cases k <;> first | exact h | cases h

theorem owned?_of_made? (h : k.made? = some (e, id)) : k.owned? = some id := by
  cases k <;> cases h <;> rfl

theorem aims_of_made? (h : k.made? = some (e, id)) : k.aims = [] := by
  cases k <;> first | rfl | cases h

/-- What a client aims at after a step it has aimed at before, or it has found it in an index. -/
theorem Does.aims (h : Does k m k' m') (hid : id ∈ k'.aims) :
    id ∈ k.aims ∨ (∃ uuid : Uuid, m.live[uuid]? = some id)
      ∨ ∃ p : Nat, m.ordered[p]? = some id := by
  cases h
  case call => simp at hid
  case find uuid _ hfound =>
    obtain rfl := List.mem_singleton.mp hid
    exact .inr (.inl ⟨uuid, hfound⟩)
  case persist =>
    split at hid
    · exact .inl hid
    · cases hid
  case list =>
    have hvalue : id ∈ m.ordered.values := hid
    rw [values_eq_map_toList] at hvalue
    obtain ⟨⟨p, _⟩, hentry, rfl⟩ := List.mem_map.mp hvalue
    exact .inr (.inr ⟨p, Std.TreeMap.mem_toList_iff_getElem?_eq_some.mp hentry⟩)
  case takeOne => exact .inl (List.mem_cons.mpr (.inl (List.mem_singleton.mp hid)))
  case takeLater => exact .inl (List.mem_cons_of_mem _ hid)
  all_goals first | exact .inl hid | cases hid

/-- What the UUIDs lead to after a step they have led to before, or the client has entered it. -/
theorem Does.live (h : Does k m k' m') {uuid : Uuid} (hid : m'.live[uuid]? = some id) :
    m.live[uuid]? = some id ∨ ∃ d, k = .enterLive d id ∧ d.uuid = uuid := by
  cases h
  case enterLive e other =>
    simp only [Std.TreeMap.getElem?_insert] at hid
    split at hid
    next heq =>
      cases hid
      exact .inr ⟨e, rfl, Std.LawfulEqCmp.compare_eq_iff_eq.mp heq⟩
    next => exact .inl hid
  case leaveLive other _ =>
    simp only [Std.TreeMap.getElem?_erase] at hid
    split at hid
    · cases hid
    · exact .inl hid
  all_goals exact .inl hid

/-- What stands in the order of creation after a step has stood there before, or the client has
entered it. -/
theorem Does.ordered (h : Does k m k' m') {p : Nat} (hid : m'.ordered[p]? = some id) :
    m.ordered[p]? = some id ∨ ∃ d, k = .enterOrdered d id ∧ d.position = p := by
  cases h
  case enterOrdered e other =>
    simp only [Std.TreeMap.getElem?_insert] at hid
    split at hid
    next heq =>
      cases hid
      exact .inr ⟨e, rfl, Nat.compare_eq_eq.mp heq⟩
    next => exact .inl hid
  case leaveOrdered other =>
    simp only [Std.TreeMap.getElem?_erase] at hid
    split at hid
    · cases hid
    · exact .inl hid
  all_goals exact .inl hid

/-- A step leaves the entries at which it does not aim. -/
theorem Does.entry_eq (h : Does k m k' m') (hlt : id < m.entries.size) (haims : id ∉ k.aims) :
    m'.entry id = m.entry id := by
  have hset {move : Move} {other : EntryId} (hstatus : (m.entry other).status = move.source)
      (hne : id ≠ other) :
      MessageIndex.entry
        { m with entries := m.entries.modify other ({ · with status := move.target }) } id
        = m.entry id := by
    rw [MessageIndex.entry_setStatus m
      (by rw [hstatus]; cases move <;> decide), if_neg (Ne.symm hne)]
  cases h
  case place d => rw [MessageIndex.entry_of_push (m := m) rfl hlt]
  case move move other hstatus => exact hset hstatus fun heq => haims (List.mem_singleton.mpr heq)
  case takeOne other rest hstatus =>
    exact @hset .lock other hstatus fun heq => haims (heq ▸ List.mem_cons_self)
  all_goals rfl

/-- An entry that a client has in the making after a step it had before, or it has just made it. -/
theorem Does.made? (h : Does k m k' m') (hmade : k'.made? = some (e, id)) :
    k.entering? = none
      ∧ (k.made? = some (e, id) ∨ id = m.entries.size ∧ m'.entry id = e ∧ e.status = .new) := by
  cases h
  case call => simp at hmade
  case place d =>
    cases hmade
    exact ⟨rfl, .inr ⟨rfl, MessageIndex.entry_of_push_self (m := m) rfl, rfl⟩⟩
  case write => exact ⟨rfl, .inl hmade⟩
  case raise => exact ⟨rfl, .inl hmade⟩
  case persist => split at hmade <;> cases hmade
  all_goals cases hmade

end IndexStage

open IndexStage

/-! ## Crowds -/

variable {first m : MessageIndex} {w u : Crowd MessageIndex IndexStage} {e : Event IndexStage}
  {id id' : EntryId}

/-- An entry that was in the queue at first, or has been made since. -/
def MessageIndex.Counted (first m : MessageIndex) (id : EntryId) : Prop :=
  (∃ p : Nat, first.ordered[p]? = some id) ∨ first.entries.size ≤ id ∧ id < m.entries.size

/-- A client comes upon an entry through one of the indexes, or has come upon it. -/
def Crowd.Reaches (w : Crowd MessageIndex IndexStage) (id : EntryId) : Prop :=
  (∃ uuid : Uuid, w.session.memory.live[uuid]? = some id)
    ∨ (∃ p : Nat, w.session.memory.ordered[p]? = some id) ∨ ∃ client, id ∈ (w.stage client).aims

theorem Crowd.Goes.reaches (h : w.Goes e u) (hid : u.Reaches id) :
    w.Reaches id ∨ e.before.entering? = some id := by
  rcases hid with ⟨uuid, hid⟩ | ⟨p, hid⟩ | ⟨client, hid⟩
  · exact (h.does.live hid).imp (fun hlive => .inl ⟨uuid, hlive⟩) fun ⟨_, hthis, _⟩ => by
      rw [hthis]
      rfl
  · exact (h.does.ordered hid).imp
      (fun hordered => .inr (.inl ⟨p, hordered⟩)) fun ⟨_, hthis, _⟩ => by
      rw [hthis]
      rfl
  · rw [h.put] at hid
    by_cases hne : client = e.client
    · rw [hne, Crowd.stage_put_self] at hid
      rcases h.does.aims hid with haims | hlive | hordered
      · exact .inl (.inr (.inr ⟨e.client, h.before ▸ haims⟩))
      · exact .inl (.inl hlive)
      · exact .inl (.inr (.inl hordered))
    · rw [Crowd.stage_put_of_ne _ hne] at hid
      exact .inl (.inr (.inr ⟨client, hid⟩))

/-- What is known of the entries that clients have to do with, since the index was as at first. -/
structure Crowd.Accounted (first : MessageIndex) (w : Crowd MessageIndex IndexStage) : Prop where
  entered : w.Entered first []
  placed : ∀ {p : Nat} {id}, first.ordered[p]? = some id →
    p < first.next ∧ id < first.entries.size ∧ (w.session.memory.entry id).position = p
  counted : ∀ {id}, w.Reaches id → first.Counted w.session.memory id
  made : ∀ {client e id}, (w.stage client).made? = some (e, id) →
    w.session.memory.entry id = e ∧ e.status = .new ∧ ¬ w.Reaches id

namespace Crowd.Accounted

theorem lt_size (h : w.Accounted first) (hid : first.Counted w.session.memory id) :
    id < w.session.memory.entries.size := by
  rcases hid with ⟨p, hid⟩ | ⟨-, hid⟩
  · exact Nat.lt_of_lt_of_le (h.placed hid).2.1 h.entered.numbers.size_le
  · exact hid

/-- No two entries that count have the same position. -/
theorem position_injective (h : w.Accounted first) (hid : first.Counted w.session.memory id)
    (hid' : first.Counted w.session.memory id')
    (heq : (w.session.memory.entry id).position = (w.session.memory.entry id').position) :
    id = id' := by
  have hnew {p : Nat} {old new : EntryId} (hold : first.ordered[p]? = some old)
      (hnew : first.entries.size ≤ new ∧ new < w.session.memory.entries.size) :
      (w.session.memory.entry old).position ≠ (w.session.memory.entry new).position := by
    -- what has entered since lies behind what was there
    have hposition := h.entered.numbers.position hnew.1 hnew.2
    have hplaced := h.placed hold
    omega
  rcases hid with ⟨p, hid⟩ | hid <;> rcases hid' with ⟨p', hid'⟩ | hid'
  · rw [(h.placed hid).2.2, (h.placed hid').2.2] at heq
    subst heq
    exact Option.some.inj (hid.symm.trans hid')
  · exact absurd heq (hnew hid hid')
  · exact absurd heq.symm (hnew hid' hid)
  · exact h.entered.numbers.injective hid hid' heq

theorem step (h : w.Accounted first) (hgoes : w.Goes e u) : u.Accounted first := by
  have hentered := h.entered.step hgoes
  have hspares := hgoes.does.spares
  have howned {id : EntryId} (hid : e.before.owned? = some id) :
      first.entries.size ≤ id ∧ id < w.session.memory.entries.size := by
    rw [hgoes.before] at hid
    exact h.entered.owned hid
  have haims {id : EntryId} (hid : id ∈ e.before.aims) : w.Reaches id :=
    .inr (.inr ⟨e.client, hgoes.before ▸ hid⟩)
  refine ⟨{ hentered with pushed := nofun }, fun {p id} hid => ?_, fun {id} hid => ?_,
    fun {client d id} hmade => ?_⟩
  · obtain ⟨hp, hlt, hposition⟩ := h.placed hid
    exact ⟨hp, hlt, (hspares.position (Nat.lt_of_lt_of_le hlt h.entered.numbers.size_le)).trans
      hposition⟩
  · rcases hgoes.reaches hid with hreached | hentering
    · exact (h.counted hreached).imp_right fun hnew =>
        ⟨hnew.1, Nat.lt_of_lt_of_le hnew.2 hspares.size_le⟩
    · obtain ⟨hle, hlt⟩ := howned (owned?_of_entering? hentering)
      exact .inr ⟨hle, Nat.lt_of_lt_of_le hlt hspares.size_le⟩
  · rw [hgoes.put] at hmade
    by_cases hne : client = e.client
    · rw [hne, stage_put_self] at hmade
      obtain ⟨hentering, hmine | ⟨rfl, hentry, hnew⟩⟩ := hgoes.does.made? hmade
      · have hstage : (w.stage e.client).made? = some (d, id) := hgoes.before ▸ hmine
        obtain ⟨hentry, hnew, hprivate⟩ := h.made hstage
        refine ⟨?_, hnew, fun hid => ?_⟩
        · rw [hgoes.does.entry_eq (howned (owned?_of_made? hmine)).2
            (by rw [aims_of_made? hmine]; simp),
            hentry]
        · rcases hgoes.reaches hid with hreached | hthis
          · exact hprivate hreached
          · rw [hentering] at hthis
            cases hthis
      · refine ⟨hentry, hnew, fun hid => ?_⟩
        rcases hgoes.reaches hid with hreached | hthis
        · exact Nat.lt_irrefl _ (h.lt_size (h.counted hreached))
        · rw [hentering] at hthis
          cases hthis
    · rw [stage_put_of_ne _ hne] at hmade
      obtain ⟨hentry, hnew, hprivate⟩ := h.made hmade
      refine ⟨?_, hnew, fun hid => ?_⟩
      · rw [hgoes.does.entry_eq (h.entered.owned (owned?_of_made? hmade)).2
          fun hid => hprivate (haims hid), hentry]
      · rcases hgoes.reaches hid with hreached | hthis
        · exact hprivate hreached
        · -- the entry is the other client's
          refine hne (h.entered.apart _ _ _ (owned?_of_made? hmade) ?_)
          rw [← hgoes.before]
          exact owned?_of_entering? hthis

end Crowd.Accounted

/-! ## Starting -/

variable {s : Session MessageIndex}

namespace MessageIndex

/-- An index that was just started or recovered in a directory. -/
def Begun (s : Session MessageIndex) : Prop :=
  ∃ before : Session MessageIndex, Ready (pagesOf before)
    ∧ before.host.disk.node? before.memory.file.store.directory = some .directory
    ∧ (startEmpty before = .ok () s ∨ ∃ tally, recover before = .ok tally s)

/-- A start from nothing leaves no message. -/
theorem startEmpty_leads (hready : Ready (pagesOf s))
    (hdirectory : s.host.disk.node? s.memory.file.store.directory = some .directory) :
    startEmpty.Leads s
      (fun _ t => Ready (pagesOf t) ∧ t.memory.live = {} ∧ t.memory.ordered = {}) fun _ _ =>
        True := by
  have hzero : encodeInt32 0 ≠ [] := List.ne_nil_of_length_pos (by simp)
  unfold startEmpty onFile PagedFile.writeInt32
  simp only [leads_within, leads_bind, leads_update]
  refine (PagedFile.reset_prunes (s := s.part file) hdirectory).leads.mono (fun _ t ht => ?_)
    fun _ _ => False.elim
  obtain ⟨-, hcoherent, gone, hpruned⟩ := ht
  have hready' : Ready (t.part PagedFile.store) := ⟨hpruned.sound hready.sound, hcoherent⟩
  exact (PagedFile.writeWord_leads hready' 0 hzero).mono
    (fun _ u hu => ⟨hu.1.touches.ready, trivial, trivial⟩) fun _ _ _ => trivial

/-- The messages of an index that was just initialized are stored. -/
theorem Begun.holds (hs : Begun s) : Ready (pagesOf s) ∧ ∃ held, Holds s.memory held
    ∧ ∀ p e, held p = some e → p < s.memory.next
      ∧ ((bytesOf s).recordAt p).status = e.status.tag := by
  obtain ⟨before, hready, hdirectory, hstart | ⟨tally, hrecover⟩⟩ := hs
  · obtain ⟨hready', hlive, hordered⟩ :=
      (startEmpty_leads hready hdirectory).of_ok (outcome_ok_iff.mpr hstart)
    exact ⟨hready', _, holds_empty hlive hordered, nofun⟩
  · obtain ⟨-, hrecovered, -⟩ :=
      (recover_leads_of_ready hready hdirectory).of_ok (outcome_ok_iff.mpr hrecover)
    have hbytes : bytesOf s = bytesOf before := hrecovered.touches.contents_eq
    refine ⟨hrecovered.touches.ready, _, hrecovered.holds, fun p e hheld => ?_⟩
    obtain ⟨hlt, hfirst, heq⟩ := ByteSpace.liveAt?_eq_some_iff.mp hheld
    obtain ⟨hrecord, -⟩ := (Record.toEntry_eq_iff hfirst.1 (hrecovered.sense p hlt)).mp heq
    rw [hrecovered.next_eq, hbytes, ← hrecord]
    exact ⟨hlt, rfl⟩

end MessageIndex

/-- At first clients come upon the messages in the queue. -/
theorem accounted_unused (hs : MessageIndex.Begun s) :
    (MessageIndex.unused s).Accounted s.memory := by
  obtain ⟨-, held, hholds, hheld⟩ := hs.holds
  refine ⟨entered_of_run .rest, fun {p id} hid => ?_, fun {id} hid => ?_, nofun⟩
  · exact ⟨(hheld p _ (hholds.held_of_ordered hid)).1, hholds.lt_size hid,
      hholds.queued.position (hholds.held_of_ordered hid)⟩
  · rcases hid with ⟨uuid, hid⟩ | hid | ⟨client, hid⟩
    · obtain ⟨p, hp, -⟩ := (hholds.live_iff uuid id).mp hid
      exact .inl ⟨p, hp⟩
    · exact .inl hid
    · exact absurd hid List.not_mem_nil

theorem begun_emptyDirectory :
    MessageIndex.Begun (MessageIndex.startEmpty.outcome emptyDirectory).2 := by
  have hsound : emptyDirectory.host.disk.Sound :=
    (Disk.fresh_new []).sound.apply (.makeDirectory ["meta"]) 0
  exact ⟨emptyDirectory, ⟨hsound, .of_cached_empty rfl⟩,
    by decide +kernel, .inl startEmpty_emptyDirectory⟩

end PagedQueue
