import PagedQueue.Proofs.IndexReferences

/-!
# Do the two indexes agree?

A message enters the index by UUIDs first and the order of creation in another step, and it leaves
them in two steps as well. Another client can take and finish the message between the two steps in
which it enters. Then it is taken out of the order of creation before it stands there (`Overtaken`),
and when it enters at last it stays for good, deleted (`indexes_disagree`).

Nothing else goes wrong: when no client is in a call, the order of creation holds the messages known
by UUID, each under its position and in the queue, and beside them only messages that were overtaken
(`indexes_agree`).
-/

namespace PagedQueue

open Procedure IndexStage

/-- The message was taken out of the order of creation before it entered it. -/
def Overtaken (trace : List (Event IndexStage)) (id : EntryId) : Prop :=
  ∃ e e' d, [e, e'].Sublist trace ∧ e.before = .leaveOrdered id ∧ e'.before = .enterOrdered d id

namespace IndexStage

variable {k k' : IndexStage} {m m' : MessageIndex} {id : EntryId}

/-- A client that finishes a message goes on until it has taken it out of the order of creation. -/
theorem Does.finished? (h : Does k m k' m') (hfine : k'.hasFailed = false)
    (hid : k.finished? = some id) :
    k'.finished? = some id ∨ k = .leaveOrdered id := by
  cases h
  case persist move other file =>
    cases move <;> cases hid
    exact .inl rfl
  case failPersisting => cases hfine
  case leaveLive => exact .inl hid
  case leaveOther => exact .inl hid
  case leaveOrdered =>
    cases hid
    exact .inr rfl
  all_goals cases hid

/-- What stands in the order of creation goes on to stand there, unless the client takes out or
enters what has this position. -/
theorem Does.ordered_of (h : Does k m k' m') {p : Nat} (hid : m.ordered[p]? = some id) :
    m'.ordered[p]? = some id ∨ (∃ other, k = .leaveOrdered other ∧ (m.entry other).position = p)
      ∨ ∃ d other, k = .enterOrdered d other ∧ d.position = p ∧ m'.ordered[p]? = some other := by
  cases h
  case enterOrdered d other =>
    simp only [Std.TreeMap.getElem?_insert]
    split
    next heq => exact .inr (.inr ⟨d, other, rfl, Nat.compare_eq_eq.mp heq, rfl⟩)
    next => exact .inl hid
  case leaveOrdered other =>
    simp only [Std.TreeMap.getElem?_erase]
    split
    next heq => exact .inr (.inl ⟨other, rfl, Nat.compare_eq_eq.mp heq⟩)
    next => exact .inl hid
  all_goals exact .inl hid

/-- A message that is taken out of the order of creation does not stand there any more. -/
theorem Does.left (h : Does (.leaveOrdered id) m k' m') :
    m'.ordered[(m.entry id).position]? = none := by
  cases h
  simp

/-- A message that enters the order of creation stands there under the position it was given. -/
theorem Does.entered {d : Entry} (h : Does k m k' m') (hk : k = .enterOrdered d id) :
    m'.ordered[d.position]? = some id := by
  subst hk
  cases h
  simp

/-- A message that is finished leaves the UUIDs once its status is stored. -/
theorem Does.persisted (h : Does k m k' m') (hk : k = .persist .finish id)
    (hfine : k'.hasFailed = false) : k' = .leaveLive id := by
  subst hk
  cases h
  · rfl
  · cases hfine

/-- A message that leaves the UUIDs is not known any more. -/
theorem Does.forgotten (h : Does k m k' m') (hk : k = .leaveLive id)
    (hid : m.live[(m.entry id).uuid]? = some id) : m'.live[(m.entry id).uuid]? = none := by
  subst hk
  cases h
  case leaveLive => simp
  case leaveOther hother => exact absurd hid hother

/-- A client makes a message known, and goes on to put it into the order of creation. -/
theorem Does.shown? (h : Does k m k' m') (hid : k.shown? = some id) :
    ∃ d, k = .enterLive d id ∧ k' = .enterOrdered d id ∧ m'.entries = m.entries := by
  cases h
  case enterLive d other =>
    cases hid
    exact ⟨d, rfl, rfl, rfl⟩
  all_goals cases hid

/-- A client that is about to put a message into the order of creation has just made it known. -/
theorem Does.entering {d : Entry} (h : Does k m (.enterOrdered d id) m') : k = .enterLive d id := by
  generalize hk' : IndexStage.enterOrdered d id = k' at h
  cases h
  case call answer call => cases call <;> cases hk'
  case enterLive =>
    cases hk'
    rfl
  case persist => split at hk' <;> cases hk'
  all_goals cases hk'

end IndexStage

/-! ## Crowds -/

variable {first : MessageIndex} {shown : EntryId → Prop} {trace : List (Event IndexStage)}
  {w u : Crowd MessageIndex IndexStage} {e : Event IndexStage} {id : EntryId}

/-- A client stays where it is, or it is the one that goes. -/
theorem Crowd.Goes.stage (h : w.Goes e u) (client : Nat) : u.stage client = w.stage client
    ∨ w.stage client = e.before ∧ u.stage client = e.after := by
  rw [h.put]
  by_cases hne : client = e.client
  · rw [hne]
    exact .inr ⟨h.before.symm, stage_put_self ..⟩
  · exact .inl (stage_put_of_ne _ hne ..)

theorem Crowd.Goes.stage_self (h : w.Goes e u) : u.stage e.client = e.after := by
  rw [h.put]
  exact stage_put_self ..

/-- What is known of the messages that were ever made known, of the two indexes and of the clients
that change them. -/
structure Crowd.Agreeing (first : MessageIndex) (shown : EntryId → Prop)
    (trace : List (Event IndexStage)) (w : Crowd MessageIndex IndexStage) : Prop where
  accounted : w.Accounted first
  orderly : w.Orderly shown
  counted : ∀ {id}, shown id → first.Counted w.session.memory id
  status : ∀ {id}, shown id → (w.session.memory.entry id).status.isLive = true
    ∨ (w.session.memory.entry id).status = .deleted
  known : ∀ {uuid : Uuid} {id}, w.session.memory.live[uuid]? = some id →
    shown id ∧ (w.session.memory.entry id).uuid = uuid
  placed : ∀ {p : Nat} {id}, w.session.memory.ordered[p]? = some id →
    shown id ∧ (w.session.memory.entry id).position = p
  entering : ∀ {client d id}, w.stage client = .enterOrdered d id →
    shown id ∧ (w.session.memory.entry id).position = d.position
  inOrder : ∀ {id}, shown id → (w.session.memory.entry id).status.isLive = true →
    w.session.memory.ordered[(w.session.memory.entry id).position]? = some id
      ∨ ∃ client d, w.stage client = .enterOrdered d id
  leaving : ∀ {uuid : Uuid} {id}, w.session.memory.live[uuid]? = some id →
    (w.session.memory.entry id).status = .deleted →
      ∃ client, w.stage client = .persist .finish id ∨ w.stage client = .leaveLive id
  finishing : ∀ {id}, shown id → (w.session.memory.entry id).status = .deleted →
    (∃ client, (w.stage client).finished? = some id) ∨ ∃ e ∈ trace, e.before = .leaveOrdered id
  overtaken : ∀ {p : Nat} {id}, w.session.memory.ordered[p]? = some id →
    (w.session.memory.entry id).status = .deleted →
      (∃ client, (w.stage client).finished? = some id) ∨ Overtaken trace id

namespace Crowd.Agreeing

theorem lt_size (h : w.Agreeing first shown trace) (hid : shown id) :
    id < w.session.memory.entries.size := h.accounted.lt_size (h.counted hid)

/-- An entry keeps its position. -/
theorem position_eq (h : w.Agreeing first shown trace) (hgoes : w.Goes e u) (hid : shown id) :
    (u.session.memory.entry id).position = (w.session.memory.entry id).position :=
  hgoes.does.spares.position (h.lt_size hid)

/-- A message that is made known is as its client has made it. -/
theorem of_shows (h : w.Agreeing first shown trace) (hgoes : w.Goes e u) (hid : e.Shows id) :
    ∃ d, e.before = .enterLive d id ∧ e.after = .enterOrdered d id
      ∧ u.session.memory.entry id = d ∧ d.status = .new := by
  obtain ⟨d, hbefore, hafter, hentries⟩ := hgoes.does.shown? hid
  have hstage : (w.stage e.client).made? = some (d, id) := by
    rw [← hgoes.before, hbefore]
    rfl
  obtain ⟨hentry, hnew, -⟩ := h.accounted.made hstage
  refine ⟨d, hbefore, hafter, ?_, hnew⟩
  rw [MessageIndex.entry, hentries]
  exact hentry

/-- A message that is deleted after a step was deleted before, or the step has deleted it. -/
theorem deleted_or (h : w.Agreeing first shown trace) (hgoes : w.Goes e u) (hid : shown id)
    (hdeleted : (u.session.memory.entry id).status = .deleted) :
    (w.session.memory.entry id).status = .deleted ∨ e.after = .persist .finish id := by
  rcases hgoes.does.status id with ⟨move, hmakes, -, htarget⟩ | ⟨-, hsame⟩
  · rw [hdeleted] at htarget
    cases move <;> cases htarget
    exact .inr hmakes.2
  · exact .inl ((hsame (h.lt_size hid)).symm.trans hdeleted)

/-- A message that is in the queue after a step was so before. -/
theorem live_before (h : w.Agreeing first shown trace) (hgoes : w.Goes e u) (hid : shown id)
    (hlive : (u.session.memory.entry id).status.isLive = true) :
    (w.session.memory.entry id).status.isLive = true := by
  refine (h.status hid).resolve_right fun hdeleted => ?_
  rw [hgoes.does.spares.deleted hdeleted] at hlive
  cases hlive

/-- Who finishes a message goes on with it, unless it takes the message out of the order just
now. -/
theorem finished_after (hgoes : w.Goes e u) (hfine : e.after.hasFailed = false)
    (hid : ∃ client, (w.stage client).finished? = some id) :
    (∃ client, (u.stage client).finished? = some id) ∨ e.before = .leaveOrdered id := by
  obtain ⟨client, hclient⟩ := hid
  rcases hgoes.stage client with hstays | ⟨hbefore, hafter⟩
  · exact .inl ⟨client, hstays ▸ hclient⟩
  · rw [hbefore] at hclient
    exact (hgoes.does.finished? hfine hclient).imp_left fun hon => ⟨client, hafter ▸ hon⟩

/-- An entry that was shown counts as one of the run. -/
theorem counted_step (h : w.Agreeing first shown trace) (hgoes : w.Goes e u)
    (hid : shown id ∨ e.Shows id) : first.Counted u.session.memory id := by
  have hgrows := hgoes.does.spares.size_le
  rcases hid with hid | hid
  · exact (h.counted hid).imp_right fun hnew => ⟨hnew.1, Nat.lt_of_lt_of_le hnew.2 hgrows⟩
  · obtain ⟨d, hbefore, -⟩ := h.of_shows hgoes hid
    have howned : (w.stage e.client).owned? = some id := by
      rw [← hgoes.before, hbefore]
      rfl
    obtain ⟨hle, hlt⟩ := h.accounted.entered.owned howned
    exact .inr ⟨hle, Nat.lt_of_lt_of_le hlt hgrows⟩

/-- Its status is live or deleted. -/
theorem status_step (h : w.Agreeing first shown trace) (hgoes : w.Goes e u)
    (hid : shown id ∨ e.Shows id) : (u.session.memory.entry id).status.isLive = true
      ∨ (u.session.memory.entry id).status = .deleted := by
  rcases hid with hid | hid
  · rcases hgoes.does.status id with ⟨move, -, -, htarget⟩ | ⟨-, hsame⟩
    · rw [htarget]
      cases move <;> simp [Move.target, Status.isLive]
    · rw [hsame (h.lt_size hid)]
      exact h.status hid
  · obtain ⟨d, -, -, hentry, hnew⟩ := h.of_shows hgoes hid
    rw [hentry, hnew]
    exact .inl rfl

/-- What the live map names was shown under that UUID. -/
theorem known_step (h : w.Agreeing first shown trace) (hgoes : w.Goes e u) {uuid : Uuid}
    (hid : u.session.memory.live[uuid]? = some id) :
    (shown id ∨ e.Shows id) ∧ (u.session.memory.entry id).uuid = uuid := by
  rcases hgoes.does.live hid with hid | ⟨d, hbefore, huuid⟩
  · obtain ⟨hshown, huuid⟩ := h.known hid
    exact ⟨.inl hshown, (hgoes.does.spares.uuid (h.lt_size hshown)).trans huuid⟩
  · have hshows : e.Shows id := by
      rw [Event.Shows, hbefore]
      rfl
    obtain ⟨d', hbefore', -, hentry, -⟩ := h.of_shows hgoes hshows
    rw [hbefore] at hbefore'
    cases hbefore'
    exact ⟨.inr hshows, hentry ▸ huuid⟩

/-- A client about to enter an entry bears its position. -/
theorem entering_step (h : w.Agreeing first shown trace) (hgoes : w.Goes e u) {client : Nat}
    {d : Entry} (hid : u.stage client = .enterOrdered d id) :
    (shown id ∨ e.Shows id) ∧ (u.session.memory.entry id).position = d.position := by
  rcases hgoes.stage client with hstays | ⟨-, hafter⟩
  · obtain ⟨hshown, hposition⟩ := h.entering (hstays ▸ hid)
    exact ⟨.inl hshown, (h.position_eq hgoes hshown).trans hposition⟩
  · have hdoes := hgoes.does
    rw [← hafter, hid] at hdoes
    have hshows : e.Shows id := by
      rw [Event.Shows, hdoes.entering]
      rfl
    obtain ⟨d', -, hafter', hentry, -⟩ := h.of_shows hgoes hshows
    rw [← hafter, hid] at hafter'
    cases hafter'
    exact ⟨.inr hshows, by rw [hentry]⟩

/-- What the ordered map names stands at its position. -/
theorem placed_step (h : w.Agreeing first shown trace) (hgoes : w.Goes e u) {p : Nat}
    (hid : u.session.memory.ordered[p]? = some id) :
    (shown id ∨ e.Shows id) ∧ (u.session.memory.entry id).position = p := by
  rcases hgoes.does.ordered hid with hid | ⟨d, hbefore, hposition⟩
  · obtain ⟨hshown, hposition⟩ := h.placed hid
    exact ⟨.inl hshown, (h.position_eq hgoes hshown).trans hposition⟩
  · obtain ⟨hshown, hsame⟩ := h.entering (hgoes.before.symm.trans hbefore)
    exact ⟨.inl hshown, (h.position_eq hgoes hshown).trans (hsame.trans hposition)⟩

/-- A message in the queue that stands in the order of creation goes on to stand there. -/
theorem ordered_step (h : w.Agreeing first shown trace) (hgoes : w.Goes e u) (hshown : shown id)
    (hlive : (w.session.memory.entry id).status.isLive = true)
    (hid : w.session.memory.ordered[(w.session.memory.entry id).position]? = some id) :
    u.session.memory.ordered[(w.session.memory.entry id).position]? = some id := by
  rcases hgoes.does.ordered_of hid with hstands | ⟨other, hbefore, hposition⟩
      | ⟨d, other, hbefore, hposition, hnow⟩
  · exact hstands
  · -- a message that leaves the order is deleted, and only this one has the position
    have hstage : w.stage e.client = .leaveOrdered other := hgoes.before.symm.trans hbefore
    have hcounted : first.Counted w.session.memory other :=
      h.accounted.counted
      (.inr (.inr ⟨e.client, by rw [hstage]; exact List.mem_singleton_self other⟩))
    obtain rfl := h.accounted.position_injective hcounted (h.counted hshown) hposition
    rw [(h.orderly.fits e.client).finished (by rw [hstage]; rfl)] at hlive
    cases hlive
  · obtain ⟨hother, hsame⟩ := h.entering (hgoes.before.symm.trans hbefore)
    obtain rfl := h.accounted.position_injective (h.counted hother) (h.counted hshown)
      (hsame.trans hposition)
    exact hnow

/-- A live entry stands in order, unless a client is about to enter it. -/
theorem inOrder_step (h : w.Agreeing first shown trace) (hgoes : w.Goes e u)
    (hid : shown id ∨ e.Shows id) (hlive : (u.session.memory.entry id).status.isLive = true) :
    u.session.memory.ordered[(u.session.memory.entry id).position]? = some id
      ∨ ∃ client d, u.stage client = .enterOrdered d id := by
  rcases hid with hid | hid
  · have hbefore := h.live_before hgoes hid hlive
    rw [h.position_eq hgoes hid]
    rcases h.inOrder hid hbefore with hstands | ⟨client, d, hclient⟩
    · exact .inl (h.ordered_step hgoes hid hbefore hstands)
    · rcases hgoes.stage client with hstays | ⟨hgoing, -⟩
      · exact .inr ⟨client, d, hstays.trans hclient⟩
      · rw [(h.entering hclient).2]
        exact .inl (hgoes.does.entered (hgoing.symm.trans hclient))
  · obtain ⟨d, -, hafter, -⟩ := h.of_shows hgoes hid
    exact .inr ⟨e.client, d, hgoes.stage_self.trans hafter⟩

/-- A deleted entry that the live map still names has a client about to take it out. -/
theorem leaving_step (h : w.Agreeing first shown trace) (hgoes : w.Goes e u)
    (hfine : e.after.hasFailed = false) {uuid : Uuid}
    (hid : u.session.memory.live[uuid]? = some id)
    (hdeleted : (u.session.memory.entry id).status = .deleted) :
    ∃ client, u.stage client = .persist .finish id ∨ u.stage client = .leaveLive id := by
  rcases hgoes.does.live hid with hknown | ⟨d, hbefore, -⟩
  · obtain ⟨hshown, huuid⟩ := h.known hknown
    rcases h.deleted_or hgoes hshown hdeleted with hdeleted | hfinished
    · obtain ⟨client, hclient⟩ := h.leaving hknown hdeleted
      rcases hgoes.stage client with hstays | ⟨hgoing, hafter⟩
      · exact ⟨client, hstays ▸ hclient⟩
      · rw [hgoing] at hclient
        rcases hclient with hpersist | hleave
        · exact ⟨client, .inr (hafter.trans (hgoes.does.persisted hpersist hfine))⟩
        · -- the UUID is let go in this step
          have hgone := hgoes.does.forgotten hleave (huuid ▸ hknown)
          rw [huuid, hid] at hgone
          cases hgone
    · exact ⟨e.client, .inl (hgoes.stage_self.trans hfinished)⟩
  · have hshows : e.Shows id := by
      rw [Event.Shows, hbefore]
      rfl
    obtain ⟨d', -, -, hentry, hnew⟩ := h.of_shows hgoes hshows
    rw [hentry, hnew] at hdeleted
    cases hdeleted

/-- A deleted entry was taken out of the order, or a client is about to do so. -/
theorem finishing_step (h : w.Agreeing first shown trace) (hgoes : w.Goes e u)
    (hfine : e.after.hasFailed = false) (hid : shown id ∨ e.Shows id)
    (hdeleted : (u.session.memory.entry id).status = .deleted) :
    (∃ client, (u.stage client).finished? = some id)
      ∨ ∃ e' ∈ trace ++ [e], e'.before = .leaveOrdered id := by
  rcases hid with hid | hid
  · rcases h.deleted_or hgoes hid hdeleted with hdeleted | hfinished
    · rcases h.finishing hid hdeleted with hclient | ⟨e', hmem, hleft⟩
      · exact (finished_after hgoes hfine hclient).imp_right fun hleaves => ⟨e, by simp, hleaves⟩
      · exact .inr ⟨e', List.mem_append_left _ hmem, hleft⟩
    · exact .inl ⟨e.client, by rw [hgoes.stage_self, hfinished]; rfl⟩
  · obtain ⟨d, -, -, hentry, hnew⟩ := h.of_shows hgoes hid
    rw [hentry, hnew] at hdeleted
    cases hdeleted

/-- One that is in order all the same was overtaken. -/
theorem overtaken_step (h : w.Agreeing first shown trace) (hgoes : w.Goes e u)
    (hfine : e.after.hasFailed = false) {p : Nat} (hid : u.session.memory.ordered[p]? = some id)
    (hdeleted : (u.session.memory.entry id).status = .deleted) :
    (∃ client, (u.stage client).finished? = some id) ∨ Overtaken (trace ++ [e]) id := by
  rcases hgoes.does.ordered hid with hstands | ⟨d, hbefore, -⟩
  · obtain ⟨hshown, hposition⟩ := h.placed hstands
    rcases h.deleted_or hgoes hshown hdeleted with hdeleted | hfinished
    · rcases h.overtaken hstands hdeleted with hclient | ⟨e₁, e₂, d, hsub, hovertaken⟩
      · refine (finished_after hgoes hfine hclient).imp_right fun hleaves => ?_
        have hdoes := hgoes.does
        rw [hleaves] at hdoes
        have hnone := hdoes.left
        rw [hposition, hid] at hnone
        cases hnone
      · exact .inr ⟨e₁, e₂, d, hsub.trans (List.sublist_append_left ..), hovertaken⟩
    · exact .inl ⟨e.client, by rw [hgoes.stage_self, hfinished]; rfl⟩
  · -- a message that enters now, although it is deleted: it has left before, or is about to leave
    obtain ⟨hshown, -⟩ := h.entering (hgoes.before.symm.trans hbefore)
    rcases h.deleted_or hgoes hshown hdeleted with hdeleted | hfinished
    · rcases h.finishing hshown hdeleted with hclient | ⟨e', hmem, hleft⟩
      · refine (finished_after hgoes hfine hclient).imp_right fun hleaves => ?_
        rw [hbefore] at hleaves
        cases hleaves
      · refine .inr ⟨e', e, d, ?_, hleft, hbefore⟩
        exact (List.singleton_sublist.mpr hmem).append (List.Sublist.refl [e])
    · exact .inl ⟨e.client, by rw [hgoes.stage_self, hfinished]; rfl⟩

/-- All this lasts through one step of any client. -/
theorem step (h : w.Agreeing first shown trace) (hgoes : w.Goes e u)
    (hfine : e.after.hasFailed = false) :
    u.Agreeing first (fun id => shown id ∨ e.Shows id) (trace ++ [e]) where
  accounted := h.accounted.step hgoes
  orderly := h.orderly.step hgoes
  counted := h.counted_step hgoes
  status := h.status_step hgoes
  known := h.known_step hgoes
  placed := h.placed_step hgoes
  entering := h.entering_step hgoes
  inOrder := h.inOrder_step hgoes
  leaving := h.leaving_step hgoes hfine
  finishing := h.finishing_step hgoes hfine
  overtaken := h.overtaken_step hgoes hfine

end Crowd.Agreeing

/-! ## Runs -/

variable {s : Session MessageIndex}

theorem MessageIndex.Begun.initialized (hs : Begun s) : Initialized s := by
  obtain ⟨before, -, -, hstarted⟩ := hs
  exact ⟨before, hstarted⟩

/-- At first the indexes agree, and no client is about to change them. -/
theorem agreeing_unused (hs : MessageIndex.Begun s) :
    (MessageIndex.unused s).Agreeing s.memory (MessageIndex.Shown s []) [] := by
  obtain ⟨-, held, hholds, -⟩ := hs.holds
  have hknown {uuid : Uuid} {id : EntryId} (hid : s.memory.live[uuid]? = some id) :
      MessageIndex.Shown s [] id := .inl ⟨uuid, hid⟩
  have hplaced {id : EntryId} (hid : MessageIndex.Shown s [] id) :
      ∃ p : Nat, s.memory.ordered[p]? = some id ∧ (s.memory.entry id).position = p
        ∧ (s.memory.entry id).status.isLive = true := by
    rcases hid with ⟨uuid, hid⟩ | ⟨e, hmem, -⟩
    · obtain ⟨p, hp, -⟩ := (hholds.live_iff uuid id).mp hid
      have hheld := hholds.held_of_ordered hp
      exact ⟨p, hp, hholds.queued.position hheld, hholds.queued.isLive hheld⟩
    · cases hmem
  have hlive {id : EntryId} (hid : MessageIndex.Shown s [] id) :
      (s.memory.entry id).status ≠ .deleted := by
    obtain ⟨p, -, -, hlive⟩ := hplaced hid
    exact fun hdeleted => (by rw [hdeleted] at hlive; cases hlive)
  have hordered {p : Nat} {id : EntryId} (hid : s.memory.ordered[p]? = some id) :
      MessageIndex.Shown s [] id ∧ (s.memory.entry id).position = p :=
    ⟨hknown ((hholds.live_iff _ id).mpr ⟨p, hid, rfl⟩),
      hholds.queued.position (hholds.held_of_ordered hid)⟩
  exact {
    accounted := accounted_unused hs
    orderly := orderly_of_run hs.initialized .rest
    counted := fun hid => by
      obtain ⟨p, hp, -⟩ := hplaced hid
      exact .inl ⟨p, hp⟩
    status := fun hid => by
      obtain ⟨p, -, -, hlive⟩ := hplaced hid
      exact .inl hlive
    known := fun hid => by
      obtain ⟨p, -, huuid⟩ := (hholds.live_iff _ _).mp hid
      exact ⟨hknown hid, huuid⟩
    placed := hordered
    entering := nofun
    inOrder := fun hid _ => by
      obtain ⟨p, hp, hposition, -⟩ := hplaced hid
      exact .inl (hposition ▸ hp)
    leaving := fun hid hdeleted => absurd hdeleted (hlive (hknown hid))
    finishing := fun hid hdeleted => absurd hdeleted (hlive hid)
    overtaken := fun hid hdeleted => absurd hdeleted (hlive (hordered hid).1) }

/-- It holds at the end of every run in which no status write failed. -/
theorem agreeing_of_run (hs : MessageIndex.Begun s)
    (hrun : MessageIndex.protocol.Run (MessageIndex.unused s) trace w)
    (hfine : ∀ e ∈ trace, e.after.hasFailed = false) :
    w.Agreeing s.memory (MessageIndex.Shown s trace) trace := by
  induction hrun with
  | rest => exact agreeing_unused hs
  | @step trace v w e _ hstep ih =>
    have hagree := ih fun e' hmem => hfine e' (List.mem_append_left _ hmem)
    rw [MessageIndex.shown_concat]
    exact hagree.step (Does.of_step hstep) (hfine e (by simp))

/-- Any number of clients share an index that was just initialized, and no access to the pages
fails. Whenever no client is in a call, every message known by its UUID is in the queue and stands
in the order of creation under its position, and what stands there is known by its UUID or was taken
out of the order before it entered it. -/
theorem indexes_agree (hs : MessageIndex.Begun s)
    (hrun : MessageIndex.protocol.Run (MessageIndex.unused s) trace w)
    (hfine : ∀ e ∈ trace, e.after.hasFailed = false)
    (hrest : ∀ client, MessageIndex.protocol.isFree (w.stage client) = true) :
    (∀ (uuid : Uuid) id, w.session.memory.live[uuid]? = some id →
      (w.session.memory.entry id).uuid = uuid ∧ (w.session.memory.entry id).status.isLive = true
        ∧ w.session.memory.ordered[(w.session.memory.entry id).position]? = some id)
    ∧ ∀ (p : Nat) id, w.session.memory.ordered[p]? = some id →
      (w.session.memory.entry id).position = p
        ∧ ((w.session.memory.entry id).status.isLive = true
            ∧ w.session.memory.live[(w.session.memory.entry id).uuid]? = some id
          ∨ (w.session.memory.entry id).status = .deleted ∧ Overtaken trace id) := by
  have h := agreeing_of_run hs hrun hfine
  have hended (client : Nat) : ∃ answer, w.stage client = .ended answer := by
    have hfree := hrest client
    generalize w.stage client = k at hfree
    cases k with
    | ended answer => exact ⟨answer, rfl⟩
    | _ => cases hfree
  refine ⟨fun uuid id hid => ?_, fun p id hid => ?_⟩
  · obtain ⟨hshown, huuid⟩ := h.known hid
    have hlive := (h.status hshown).resolve_right fun hdeleted => by
      obtain ⟨client, hclient⟩ := h.leaving hid hdeleted
      obtain ⟨answer, hanswer⟩ := hended client
      rw [hanswer] at hclient
      simp at hclient
    refine ⟨huuid, hlive, (h.inOrder hshown hlive).resolve_right fun ⟨client, d, hclient⟩ => ?_⟩
    obtain ⟨answer, hanswer⟩ := hended client
    rw [hanswer] at hclient
    cases hclient
  · obtain ⟨hshown, hposition⟩ := h.placed hid
    refine ⟨hposition, (h.status hshown).imp
      (fun hlive => ⟨hlive, h.orderly.knows.live hshown hlive⟩)
      fun hdeleted =>
      ⟨hdeleted, (h.overtaken hid hdeleted).resolve_left fun ⟨client, hclient⟩ => ?_⟩⟩
    obtain ⟨answer, hanswer⟩ := hended client
    rw [hanswer] at hclient
    cases hclient

/-- A client pushes a message and another one takes and finishes it before it enters the order of
creation. Then a second message is pushed. -/
def finishedEarly : List (Nat × IndexCall) :=
  List.replicate 7 (0, .push ⟨⟨1⟩, 0, 0, .text⟩) ++ List.replicate 5 (1, .move .lock ⟨1⟩)
    ++ List.replicate 7 (1, .move .finish ⟨1⟩) ++ List.replicate 2 (0, .push ⟨⟨1⟩, 0, 0, .text⟩)
    ++ List.replicate 9 (0, .push ⟨⟨2⟩, 0, 0, .text⟩)

section

open MessageIndex

/-- No status write fails in this run. -/
private theorem fine_finishedEarly :
    ∀ e ∈ (protocol.perform (unused (startEmpty.outcome emptyDirectory).2)
    finishedEarly).1, e.after.hasFailed = false := by
  have hall : (protocol.perform (unused (startEmpty.outcome emptyDirectory).2) finishedEarly).1.all
      (fun e => !e.after.hasFailed) = true := by decide +kernel
  exact fun e he => by simpa using List.all_eq_true.mp hall e he

/-- Every client has done at its end. -/
private theorem free_finishedEarly : ∀ client, protocol.isFree ((protocol.perform
    (unused (startEmpty.outcome emptyDirectory).2) finishedEarly).2.stage client) = true :=
  Protocol.forall_stage_perform (n := 2) (fun _ => rfl) (by decide) (by decide +kernel)

private theorem entry_finishedEarly :
    (protocol.perform (unused (startEmpty.outcome emptyDirectory).2)
    finishedEarly).2.session.memory.entry 0 = ⟨⟨1⟩, 0, 0, .text, 0, .deleted⟩ := by
  decide +kernel

theorem indexes_agree_finishedEarly :
    Overtaken
      (protocol.perform (unused (startEmpty.outcome emptyDirectory).2) finishedEarly).1 0 := by
  obtain ⟨-, hordered⟩ :=
    indexes_agree begun_emptyDirectory (Protocol.run_perform _ _ finishedEarly)
    fine_finishedEarly free_finishedEarly
  rcases (hordered 0 0 (by decide +kernel)).2 with ⟨hlive, -⟩ | ⟨-, hovertaken⟩
  · rw [entry_finishedEarly] at hlive
    cases hlive
  · exact hovertaken

/-- A deleted message can stand in the order of creation when no client is in a call, although it is
not known by its UUID, and nothing has failed. -/
theorem indexes_disagree : ∃ (s : Session MessageIndex) (trace : List (Event IndexStage))
    (w : Crowd MessageIndex IndexStage), Begun s ∧ protocol.Run (unused s) trace w
      ∧ (∀ e ∈ trace, e.after.hasFailed = false)
      ∧ (∀ client, protocol.isFree (w.stage client) = true)
      ∧ w.session.memory.ordered[0]? = some 0 ∧ (w.session.memory.entry 0).status = .deleted
      ∧ w.session.memory.live[(w.session.memory.entry 0).uuid]? = none :=
  ⟨_, _, _, begun_emptyDirectory, Protocol.run_perform _ _ finishedEarly, fine_finishedEarly,
    free_finishedEarly, by decide +kernel, by rw [entry_finishedEarly],
    by rw [entry_finishedEarly]; decide +kernel⟩

end

end PagedQueue
