import PagedQueue.Proofs.IndexMemory
import PagedQueue.Proofs.IndexStages

/-!
# What clients of an index rely on

Between two steps of a client the others change the index. What a client still relies on is told by
its stage (`Fits`): a UUID that it has reserved is noted, one that it is about to make known is
known to nobody, and a message that it has finished stays so. A step of one client keeps this for
itself (`Does.fits`) and spares the others (`Does.spares`), since no two clients reserve the same
UUID. Of a whole crowd that is `Crowd.Orderly`, and `Crowd.Entered` tells which entries its clients
have made.

A status goes from the source of a move to its target, or a step leaves it (`Does.status`).
-/

namespace PagedQueue

open Procedure
open MessageIndex (lt_size_of_status entry_setStatus)

namespace IndexStage

/-- The UUID that a client has reserved. -/
def reserved? : IndexStage → Option Uuid
  | .checkLive d | .takePosition d => some d.uuid
  | .refuse uuid | .withdraw uuid _ => some uuid
  | .writeRecord e _ | .raiseCount e _ | .enterLive e _ | .enterOrdered e _ => some e.uuid
  | _ => none

/-- The UUID of a message that a client is about to make known. -/
def unknown? : IndexStage → Option Uuid
  | .takePosition d => some d.uuid
  | .writeRecord e _ | .raiseCount e _ | .enterLive e _ => some e.uuid
  | _ => none

/-- The entry that a client has made of a message that enters. -/
def made? : IndexStage → Option (Entry × EntryId)
  | .writeRecord e id | .raiseCount e id | .enterLive e id => some (e, id)
  | _ => none

/-- The entry of a message that a client has finished. -/
def finished? : IndexStage → Option EntryId
  | .persist .finish id | .leaveLive id | .leaveOrdered id => some id
  | _ => none

/-- A client that goes by a UUID as not yet live holds it reserved. -/
theorem reserved?_of_unknown? {k : IndexStage} {uuid : Uuid} (h : k.unknown? = some uuid) :
    k.reserved? = some uuid := by
  cases k <;> simp_all [unknown?, reserved?]

@[simp]
theorem reserved?_start (call : IndexCall) : (start call).reserved? = none := by
  cases call <;> rfl

@[simp]
theorem unknown?_start (call : IndexCall) : (start call).unknown? = none := by
  cases call <;> rfl

@[simp]
theorem made?_start (call : IndexCall) : (start call).made? = none := by
  cases call <;> rfl

@[simp]
theorem finished?_start (call : IndexCall) : (start call).finished? = none := by
  cases call <;> rfl

/-- What a client relies on at a stage. -/
structure Fits (m : MessageIndex) (k : IndexStage) : Prop where
  pending : ∀ {uuid}, k.reserved? = some uuid → m.pending.contains uuid = true
  unknown : ∀ {uuid}, k.unknown? = some uuid → m.live[uuid]? = none
  made : ∀ {e id}, k.made? = some (e, id) → id < m.entries.size ∧ (m.entry id).uuid = e.uuid
  finished : ∀ {id}, k.finished? = some id → (m.entry id).status = .deleted

/-- What a step leaves of what other clients rely on: it takes away only what has to do with the
UUID that its client has reserved. -/
structure Spares (mine : Option Uuid) (m m' : MessageIndex) : Prop where
  pending : ∀ {uuid}, mine ≠ some uuid → m.pending.contains uuid = true →
    m'.pending.contains uuid = true
  unknown : ∀ {uuid}, mine ≠ some uuid → m.live[uuid]? = none → m'.live[uuid]? = none
  size_le : m.entries.size ≤ m'.entries.size
  uuid : ∀ {id}, id < m.entries.size → (m'.entry id).uuid = (m.entry id).uuid
  position : ∀ {id}, id < m.entries.size → (m'.entry id).position = (m.entry id).position
  deleted : ∀ {id}, (m.entry id).status = .deleted → (m'.entry id).status = .deleted

variable {k k' : IndexStage} {m m' : MessageIndex}

/-- A client goes on as before when another does what spares it. -/
theorem Fits.spared {mine : Option Uuid} (h : Fits m k) (hspares : Spares mine m m')
    (hother : ∀ {uuid}, k.reserved? = some uuid → mine ≠ some uuid) : Fits m' k where
  pending hk := hspares.pending (hother hk) (h.pending hk)
  unknown hk := hspares.unknown (hother (reserved?_of_unknown? hk)) (h.unknown hk)
  made hk := by
    obtain ⟨hlt, huuid⟩ := h.made hk
    exact ⟨Nat.lt_of_lt_of_le hlt hspares.size_le, (hspares.uuid hlt).trans huuid⟩
  finished hk := hspares.deleted (h.finished hk)

/-- What adds no entry spares the others if it leaves their UUIDs alone. -/
theorem spares_of_entries {mine : Option Uuid} (hentries : m'.entries = m.entries)
    (hpending : ∀ {uuid}, mine ≠ some uuid → m.pending.contains uuid = true →
      m'.pending.contains uuid = true)
    (hunknown : ∀ {uuid}, mine ≠ some uuid → m.live[uuid]? = none → m'.live[uuid]? = none) :
    Spares mine m m' := by
  have hentry (id : EntryId) : m'.entry id = m.entry id := by
    rw [MessageIndex.entry, hentries, MessageIndex.entry]
  refine ⟨hpending, hunknown, by rw [hentries], fun _ => ?_, fun _ => ?_, fun hdeleted => ?_⟩
  · rw [hentry]
  · rw [hentry]
  · rw [hentry, hdeleted]

/-- A status is moved, which is neither the first nor the last one. -/
theorem spares_setStatus {mine : Option Uuid} {id : EntryId} {status : Status}
    (h : (m.entry id).status ≠ .vacant) (hlast : (m.entry id).status ≠ .deleted) :
    Spares mine m { m with entries := m.entries.modify id ({ · with status }) } := by
  refine ⟨fun _ => (·), fun _ => (·), by simp, fun _ => ?_, fun _ => ?_, fun {other} hdeleted => ?_⟩
  · rw [entry_setStatus m h]
    split <;> rfl
  · rw [entry_setStatus m h]
    split <;> rfl
  · rw [entry_setStatus m h, if_neg]
    · exact hdeleted
    · rintro rfl
      exact hlast hdeleted

/-- What a client does spares all that hold other UUIDs. -/
theorem Does.spares (h : Does k m k' m') : Spares k.reserved? m m' := by
  cases h
  case note d hnew =>
    refine spares_of_entries rfl (fun _ hpending => ?_) fun _ => (·)
    simp [Std.TreeSet.contains_insert, hpending]
  case refuse uuid =>
    refine spares_of_entries rfl (fun hne hpending => ?_) fun _ => (·)
    simp_all [reserved?, Std.TreeSet.contains_erase]
  case withdraw uuid answer =>
    refine spares_of_entries rfl (fun hne hpending => ?_) fun _ => (·)
    simp_all [reserved?, Std.TreeSet.contains_erase]
  case place d =>
    have hentry {id : EntryId} (hid : id < m.entries.size) :
        MessageIndex.entry
        { m with next := m.next + 1, entries := m.entries.push (d.entry m.next) } id
          = m.entry id := MessageIndex.entry_of_push rfl hid
    refine ⟨fun _ => (·), fun _ => (·), by simp, fun hid => ?_, fun hid => ?_, fun hdeleted => ?_⟩
    · rw [hentry hid]
    · rw [hentry hid]
    · rw [hentry (lt_size_of_status (by rw [hdeleted]; decide)), hdeleted]
  case enterLive e id =>
    refine spares_of_entries rfl (fun _ => (·)) fun hne hnone => ?_
    simp_all [reserved?]
  case leaveLive id hid =>
    refine spares_of_entries rfl (fun _ => (·)) fun _ hnone => ?_
    simp [Std.TreeMap.getElem?_erase, hnone]
  case move move id hstatus =>
    refine spares_setStatus ?_ ?_ <;> rw [hstatus] <;> cases move <;> decide
  case takeOne id rest hstatus => refine spares_setStatus ?_ ?_ <;> rw [hstatus] <;> decide
  all_goals exact spares_of_entries rfl (fun _ => (·)) fun _ => (·)

/-- A client fits the index again after its own step. -/
theorem Does.fits (h : Does k m k' m') (hfits : Fits m k) : Fits m' k' := by
  cases h
  case call answer call => exact ⟨by simp, by simp, by simp, by simp⟩
  case note d hnew =>
    refine ⟨fun hk => ?_, nofun, nofun, nofun⟩
    cases hk
    exact Std.TreeSet.contains_insert_self
  case allow d hnone =>
    refine ⟨hfits.pending, fun hk => ?_, nofun, nofun⟩
    cases hk
    exact hnone
  case place d =>
    refine ⟨hfits.pending, hfits.unknown, fun hk => ?_, nofun⟩
    cases hk
    exact ⟨by simp, by rw [MessageIndex.entry_of_push_self (m := m) rfl]⟩
  case enterLive e id => exact ⟨hfits.pending, nofun, nofun, nofun⟩
  case enterOrdered e id => exact ⟨hfits.pending, nofun, nofun, nofun⟩
  case leaveLive id hid => exact ⟨nofun, nofun, nofun, hfits.finished⟩
  case move move id hstatus =>
    refine ⟨nofun, nofun, nofun, fun hk => ?_⟩
    cases move <;> cases hk
    have hlocked : (m.entry id).status = .locked := hstatus
    rw [entry_setStatus m (by rw [hlocked]; decide), if_pos rfl]
    rfl
  case persist move id file =>
    split
    next hfinish => exact ⟨nofun, nofun, nofun, by subst hfinish; exact hfits.finished⟩
    next => exact ⟨nofun, nofun, nofun, nofun⟩
  case know => exact ⟨hfits.pending, nofun, nofun, nofun⟩
  case write => exact ⟨hfits.pending, hfits.unknown, hfits.made, nofun⟩
  case failWriting => exact ⟨hfits.pending, nofun, nofun, nofun⟩
  case raise => exact ⟨hfits.pending, hfits.unknown, hfits.made, nofun⟩
  case failRaising => exact ⟨hfits.pending, nofun, nofun, nofun⟩
  case leaveOther => exact ⟨nofun, nofun, nofun, hfits.finished⟩
  all_goals exact ⟨nofun, nofun, nofun, nofun⟩

/-- A client reserves a UUID that was free, or it keeps or gives up the one it has reserved. -/
theorem Does.reserved? (h : Does k m k' m') :
    k'.reserved? = none ∨ k'.reserved? = k.reserved?
      ∨ ∃ uuid, k'.reserved? = some uuid ∧ m.pending.contains uuid = false := by
  cases h
  case call => exact .inl (reserved?_start _)
  case note d hnew => exact .inr (.inr ⟨_, rfl, hnew⟩)
  case persist => split <;> exact .inl rfl
  all_goals first | exact .inl rfl | exact .inr (.inl rfl)

/-! ## Messages that are known -/

/-- The entry that a step makes known. -/
def shown? : IndexStage → Option EntryId
  | .enterLive _ id => some id
  | _ => none

/-- Of the messages that were ever made known, those in the queue are known by their UUIDs. -/
structure Knows (shown : EntryId → Prop) (m : MessageIndex) : Prop where
  lt_size : ∀ {id}, shown id → id < m.entries.size
  live : ∀ {id}, shown id → (m.entry id).status.isLive = true →
    m.live[(m.entry id).uuid]? = some id

variable {shown : EntryId → Prop}

/-- What an index knows is told by its entries and its live map. -/
theorem Knows.congr (h : Knows shown m) (hentries : m'.entries = m.entries)
    (hlive : m'.live = m.live) : Knows shown m' := by
  have hentry (id : EntryId) : m'.entry id = m.entry id := by
    rw [MessageIndex.entry, hentries, MessageIndex.entry]
  refine ⟨fun hid => ?_, fun hid => ?_⟩
  · rw [hentries]
    exact h.lt_size hid
  · rw [hentry, hlive]
    exact h.live hid

/-- A live entry may take another status. -/
theorem Knows.setStatus (h : Knows shown m) {id : EntryId} {status : Status}
    (hlive : (m.entry id).status.isLive = true) :
    Knows shown { m with entries := m.entries.modify id ({ · with status }) } := by
  have hvacant : (m.entry id).status ≠ .vacant := by
    intro hvacant
    rw [hvacant] at hlive
    cases hlive
  refine ⟨fun hother => ?_, fun {other} hother hstatus => ?_⟩
  · rw [Array.size_modify]
    exact h.lt_size hother
  · rw [entry_setStatus m hvacant] at hstatus ⊢
    by_cases hid : id = other
    · subst hid
      rw [if_pos rfl]
      exact h.live hother hlive
    · rw [if_neg hid] at hstatus ⊢
      exact h.live hother hstatus

/-- After a step the index knows what it knew and what was just shown. -/
theorem Does.knows (h : Does k m k' m') (hfits : Fits m k) (hknows : Knows shown m) :
    Knows (fun id => shown id ∨ k.shown? = some id) m' := by
  have hquiet (hentries : m'.entries = m.entries) (hlive : m'.live = m.live)
      (hshown : k.shown? = none) : Knows (fun id => shown id ∨ k.shown? = some id) m' := by
    simp only [hshown, reduceCtorEq, or_false]
    exact hknows.congr hentries hlive
  cases h
  case place d =>
    simp only [shown?, reduceCtorEq, or_false]
    have hentry {id : EntryId} (hid : id < m.entries.size) :
        MessageIndex.entry
        { m with next := m.next + 1, entries := m.entries.push (d.entry m.next) } id
          = m.entry id := MessageIndex.entry_of_push rfl hid
    refine ⟨fun hid => ?_, fun hid => ?_⟩
    · rw [Array.size_push]
      exact Nat.lt_succ_of_lt (hknows.lt_size hid)
    · rw [hentry (hknows.lt_size hid)]
      exact hknows.live hid
  case enterLive e id =>
    obtain ⟨hlt, huuid⟩ := hfits.made rfl
    have hnone : m.live[e.uuid]? = none := hfits.unknown rfl
    refine ⟨fun hother => ?_, fun {other} hother hstatus => ?_⟩
    · rcases hother with hother | hother
      · exact hknows.lt_size hother
      · cases hother
        exact hlt
    · show (m.live.insert e.uuid id)[(m.entry other).uuid]? = some other
      rw [Std.TreeMap.getElem?_insert]
      rcases hother with hother | hother
      · -- the UUID was free, so no message in the queue has it
        have hknown := hknows.live hother hstatus
        rw [if_neg]
        · exact hknown
        · intro heq
          rw [← Std.LawfulEqCmp.compare_eq_iff_eq.mp heq, hnone] at hknown
          cases hknown
      · cases hother
        rw [huuid, if_pos Std.ReflCmp.compare_self]
  case leaveLive id hid =>
    simp only [shown?, reduceCtorEq, or_false]
    refine ⟨hknows.lt_size, fun {other} hother hstatus => ?_⟩
    show (m.live.erase (m.entry id).uuid)[(m.entry other).uuid]? = some other
    have hknown := hknows.live hother hstatus
    rw [Std.TreeMap.getElem?_erase, if_neg]
    · exact hknown
    · intro heq
      -- the message that leaves is finished
      rw [← Std.LawfulEqCmp.compare_eq_iff_eq.mp heq, hid] at hknown
      cases hknown
      have hdeleted := hfits.finished rfl
      change (m.entry id).status.isLive = true at hstatus
      rw [hdeleted] at hstatus
      cases hstatus
  case move move id hstatus =>
    simp only [shown?, reduceCtorEq, or_false]
    refine hknows.setStatus ?_
    rw [hstatus]
    cases move <;> rfl
  case takeOne id rest hstatus =>
    simp only [shown?, reduceCtorEq, or_false]
    refine hknows.setStatus ?_
    rw [hstatus]
    rfl
  all_goals exact hquiet rfl rfl rfl

/-! ## Moves of a status -/

/-- A status was moved: it was the expected one, for which a move of the message of a UUID or the
search for the oldest waiting message has looked. -/
def Makes (k k' : IndexStage) (move : Move) (id : EntryId) : Prop :=
  (k = .setStatus move id ∨ move = .lock ∧ ∃ rest, k = .takeFirst (id :: rest))
    ∧ k' = .persist move id

/-- The status of an entry moves only when the step makes a move of it. -/
theorem Does.status (h : Does k m k' m') (id : EntryId) :
    (∃ move, Makes k k' move id ∧ (m.entry id).status = move.source
      ∧ (m'.entry id).status = move.target)
    ∨ (∀ move, ¬ Makes k k' move id)
      ∧ (id < m.entries.size → (m'.entry id).status = (m.entry id).status) := by
  have hset (move : Move) {other : EntryId} (hstatus : (m.entry other).status = move.source) :
      (m.entry other).status ≠ .vacant := by
    rw [hstatus]
    cases move <;> decide
  cases h
  case place d =>
    refine .inr ⟨fun move hmakes => (by cases hmakes.2), fun hid => ?_⟩
    rw [MessageIndex.entry_of_push (m := m) rfl hid]
  case move move other hstatus =>
    rw [entry_setStatus m (hset move hstatus)]
    by_cases hid : other = id
    · subst hid
      refine .inl ⟨move, ⟨.inl rfl, rfl⟩, hstatus, ?_⟩
      rw [if_pos rfl]
    · refine .inr ⟨fun other hmakes => ?_, fun _ => by rw [if_neg hid]⟩
      cases hmakes.2
      exact hid rfl
  case takeOne other rest hstatus =>
    rw [entry_setStatus m (hset .lock hstatus)]
    by_cases hid : other = id
    · subst hid
      refine .inl ⟨.lock, ⟨.inr ⟨rfl, rest, rfl⟩, rfl⟩, hstatus, ?_⟩
      rw [if_pos rfl]
      rfl
    · refine .inr ⟨fun other hmakes => ?_, fun _ => by rw [if_neg hid]⟩
      cases hmakes.2
      exact hid rfl
  case call answer call =>
    refine .inr ⟨fun move hmakes => ?_, fun _ => rfl⟩
    obtain ⟨hbefore | ⟨-, rest, hbefore⟩, -⟩ := hmakes <;> cases hbefore
  case persist =>
    refine .inr ⟨fun move hmakes => ?_, fun _ => rfl⟩
    obtain ⟨hbefore | ⟨-, rest, hbefore⟩, -⟩ := hmakes <;> cases hbefore
  all_goals exact .inr ⟨fun move hmakes => (by cases hmakes.2), fun _ => rfl⟩

/-! ## Messages that enter -/

/-- The entry of a message that a client enters or has just entered. -/
def owned? : IndexStage → Option EntryId
  | .writeRecord _ id | .raiseCount _ id | .enterLive _ id | .enterOrdered _ id => some id
  | .withdraw _ (.ok id) => some id
  | _ => none

/-- Since the index was as at first, each new entry has got the next position. -/
structure Numbers (first m : MessageIndex) : Prop where
  size_le : first.entries.size ≤ m.entries.size
  next : m.next + first.entries.size = first.next + m.entries.size
  position : ∀ {id}, first.entries.size ≤ id → id < m.entries.size →
    (m.entry id).position + first.entries.size = first.next + id

theorem Numbers.refl (m : MessageIndex) : Numbers m m :=
  ⟨Nat.le_refl _, rfl, fun hle hlt => absurd hlt (Nat.not_lt.mpr hle)⟩

/-- Entries made in one run have positions of their own. -/
theorem Numbers.injective {first : MessageIndex} (h : Numbers first m) {id id' : EntryId}
    (hid : first.entries.size ≤ id ∧ id < m.entries.size)
    (hid' : first.entries.size ≤ id' ∧ id' < m.entries.size)
    (heq : (m.entry id).position = (m.entry id').position) : id = id' := by
  have hposition := h.position hid.1 hid.2
  rw [heq, h.position hid'.1 hid'.2] at hposition
  exact (Nat.add_left_cancel hposition).symm

/-- Positions are given out in order through every step. -/
theorem Does.numbers {first : MessageIndex} (h : Does k m k' m') (hnumbers : Numbers first m) :
    Numbers first m' := by
  -- a step that makes no entry takes no position
  have hquiet (hsize : m'.entries.size = m.entries.size) (hnext : m'.next = m.next) :
      Numbers first m' := by
    refine ⟨hsize ▸ hnumbers.size_le, by rw [hsize, hnext]; exact hnumbers.next, ?_⟩
    intro id hle hlt
    rw [hsize] at hlt
    rw [h.spares.position hlt]
    exact hnumbers.position hle hlt
  cases h
  case place d =>
    have hnext := hnumbers.next
    refine ⟨?_, ?_, fun {id} hle hlt => ?_⟩
    · rw [Array.size_push]
      exact Nat.le_succ_of_le hnumbers.size_le
    · show m.next + 1 + first.entries.size = first.next + (m.entries.push _).size
      rw [Array.size_push]
      omega
    · rw [Array.size_push] at hlt
      by_cases hid : id = m.entries.size
      · subst hid
        rw [MessageIndex.entry_of_push_self (m := m) rfl]
        exact hnext
      · have hlt' : id < m.entries.size := by omega
        rw [MessageIndex.entry_of_push (m := m) rfl hlt']
        exact hnumbers.position hle hlt'
  case move => exact hquiet (by simp) rfl
  case takeOne => exact hquiet (by simp) rfl
  all_goals exact hquiet rfl rfl

/-- A client makes a new entry, or it keeps the one it has made or is done with it. -/
theorem Does.owned? (h : Does k m k' m') : k'.owned? = none ∨ k'.owned? = k.owned?
    ∨ k'.owned? = some m.entries.size ∧ m'.entries.size = m.entries.size + 1 := by
  cases h
  case call answer call => cases call <;> exact .inl rfl
  case place => exact .inr (.inr ⟨rfl, Array.size_push ..⟩)
  case persist => split <;> exact .inl rfl
  all_goals first | exact .inl rfl | exact .inr (.inl rfl)

theorem Does.owned?_of_withdraw {uuid : Uuid} {answer : Except Fault EntryId}
    (h : Does (.withdraw uuid answer) m k' m') : k'.owned? = none := by
  cases h
  rfl

end IndexStage

open IndexStage

/-! ## Crowds -/

namespace Event

/-- The step moved the status of an entry. -/
def Makes (e : Event IndexStage) (move : Move) (id : EntryId) : Prop :=
  IndexStage.Makes e.before e.after move id

/-- The step made a message known. -/
def Shows (e : Event IndexStage) (id : EntryId) : Prop := e.before.shown? = some id

/-- The step ended a push with success. -/
def Pushes (e : Event IndexStage) (id : EntryId) : Prop :=
  ∃ uuid, e.before = .withdraw uuid (.ok id)

end Event

variable {w u : Crowd MessageIndex IndexStage} {e : Event IndexStage}
  {trace before after : List (Event IndexStage)}

/-- What all clients rely on. -/
structure Crowd.Orderly (shown : EntryId → Prop) (w : Crowd MessageIndex IndexStage) : Prop where
  fits : ∀ client, Fits w.session.memory (w.stage client)
  alone : w.Apart reserved?
  knows : Knows shown w.session.memory

/-- Clients are orderly after a step of any of them. -/
theorem Crowd.Orderly.step {shown : EntryId → Prop} (h : w.Orderly shown) (hgoes : w.Goes e u) :
    u.Orderly fun id => shown id ∨ e.Shows id := by
  obtain ⟨hbefore, hu, hdoes⟩ := hgoes
  have hfits := h.fits e.client
  rw [← hbefore] at hfits
  refine ⟨fun client => ?_, ?_, hdoes.knows hfits h.knows⟩
  · rw [hu]
    by_cases hne : client = e.client
    · rw [hne, stage_put_self]
      exact hdoes.fits hfits
    · rw [stage_put_of_ne _ hne]
      refine (h.fits client).spared hdoes.spares fun hclient hmine => ?_
      rw [hbefore] at hmine
      exact hne (h.alone _ _ _ hclient hmine)
  · rw [hu]
    refine h.alone.put fun {uuid} huuid => ?_
    rcases hdoes.reserved? with hnone | hsame | ⟨uuid', hnew, hfree⟩
    · rw [hnone] at huuid
      cases huuid
    · rw [hsame, hbefore] at huuid
      exact .inl huuid
    · rw [hnew] at huuid
      cases huuid
      refine .inr fun other hother => ?_
      rw [(h.fits other).pending hother] at hfree
      cases hfree

/-- What clients have entered since the index was as at first. -/
structure Crowd.Entered (first : MessageIndex) (trace : List (Event IndexStage))
    (w : Crowd MessageIndex IndexStage) : Prop where
  numbers : Numbers first w.session.memory
  owned : ∀ {client id}, (w.stage client).owned? = some id →
    first.entries.size ≤ id ∧ id < w.session.memory.entries.size
  apart : w.Apart owned?
  pushed : ∀ {e id}, e ∈ trace → e.Pushes id →
    (first.entries.size ≤ id ∧ id < w.session.memory.entries.size)
      ∧ ∀ client, (w.stage client).owned? ≠ some id

/-- A step of any client leaves the entries of each its own. -/
theorem Crowd.Entered.step {first : MessageIndex} (h : w.Entered first trace) (hgoes : w.Goes e u) :
    u.Entered first (trace ++ [e]) := by
  obtain ⟨hbefore, hu, hdoes⟩ := hgoes
  have hsize {id : EntryId} (hid : first.entries.size ≤ id ∧ id < w.session.memory.entries.size) :
      first.entries.size ≤ id ∧ id < u.session.memory.entries.size :=
    ⟨hid.1, Nat.lt_of_lt_of_le hid.2 hdoes.spares.size_le⟩
  -- an entry that the client has after the step is its own, or a new one
  have hafter {id : EntryId} (hid : e.after.owned? = some id) :
      (w.stage e.client).owned? = some id ∨ id = w.session.memory.entries.size
        ∧ u.session.memory.entries.size = w.session.memory.entries.size + 1 := by
    rcases hdoes.owned? with hnone | hsame | ⟨hnew, hgrown⟩
    · rw [hnone] at hid
      cases hid
    · rw [hsame, hbefore] at hid
      exact .inl hid
    · rw [hnew] at hid
      cases hid
      exact .inr ⟨rfl, hgrown⟩
  have howned {client : Nat} {id : EntryId} (hid : (u.stage client).owned? = some id) :
      (w.stage client).owned? = some id ∨ id = w.session.memory.entries.size
        ∧ u.session.memory.entries.size = w.session.memory.entries.size + 1 := by
    rw [hu] at hid
    by_cases hne : client = e.client
    · rw [hne, stage_put_self] at hid
      exact hne ▸ hafter hid
    · rw [stage_put_of_ne _ hne] at hid
      exact .inl hid
  refine ⟨hdoes.numbers h.numbers, fun {client id} hid => ?_, ?_, fun {e' id} hmem hpushes => ?_⟩
  · rcases howned hid with hmine | ⟨rfl, hgrown⟩
    · exact hsize (h.owned hmine)
    · exact ⟨h.numbers.size_le, by rw [hgrown]; exact Nat.lt_succ_self _⟩
  · rw [hu]
    refine h.apart.put fun {id} hid => ?_
    rcases hafter hid with hmine | ⟨rfl, -⟩
    · exact .inl hmine
    · exact .inr fun other hother => Nat.lt_irrefl _ (h.owned hother).2
  · rcases List.mem_append.mp hmem with hmem | hmem
    · obtain ⟨hid, hnone⟩ := h.pushed hmem hpushes
      refine ⟨hsize hid, fun client hclient => ?_⟩
      rcases howned hclient with hmine | ⟨rfl, -⟩
      · exact hnone client hmine
      · exact Nat.lt_irrefl _ hid.2
    · -- the push that ends now had the entry, and has none any more
      cases List.mem_singleton.mp hmem
      obtain ⟨uuid, hwithdraw⟩ := hpushes
      have hmine : (w.stage e.client).owned? = some id := by
        rw [← hbefore, hwithdraw]
        rfl
      refine ⟨hsize (h.owned hmine), fun client hclient => ?_⟩
      by_cases hne : client = e.client
      · rw [hu, hne, stage_put_self] at hclient
        rw [hwithdraw] at hdoes
        rw [hdoes.owned?_of_withdraw] at hclient
        cases hclient
      · rw [hu, stage_put_of_ne _ hne] at hclient
        exact hne (h.apart _ _ _ hclient hmine)

end PagedQueue
