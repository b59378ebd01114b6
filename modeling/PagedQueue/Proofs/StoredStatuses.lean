import PagedQueue.Proofs.StatusStages

/-!
# Statuses on disk

A status is moved in one step and stored in others, so what is stored may lag behind, and the
clients that have moved the status of an entry may come to store it in another order. Each of them
stores the status as it is once it has the lock of the entry. Hence a client that is about to write
a status that is no longer the one of the entry is followed by another one that has moved it and
still waits for the lock (`Crowd.Storing.current`), and an entry whose status is not on disk has a
client that will store it (`Crowd.Storing.stored`). When no client is in a call, the statuses on
disk are those of the entries (`statuses_stored`).
-/

namespace PagedQueue

open Procedure
open MessageIndex (bytesOf pagesOf)
open PageStore (Ready)

variable {w u : Crowd SharedIndex StatusStage} {e : Event StatusStage} {first : MessageIndex}

/-! ## Steps -/

/-- The clients as the index sees them. -/
def Crowd.whole (w : Crowd SharedIndex StatusStage) : Crowd MessageIndex IndexStage :=
  ⟨w.session.part SharedIndex.index, fun client => (w.stage client).whole⟩

theorem Crowd.whole_put (w : Crowd SharedIndex StatusStage) (client : Nat) (k : StatusStage)
    (s : Session SharedIndex) :
    (w.put client k s).whole = w.whole.put client k.whole (s.part SharedIndex.index) := by
  have hstage : (fun other => ((w.put client k s).stage other).whole)
      = Function.update (fun other => (w.stage other).whole) client k.whole := by
    funext other
    exact (Function.apply_update (fun _ => StatusStage.whole) w.stage client k other)
  exact congrArg (Crowd.mk (s.part SharedIndex.index)) hstage

/-- One client goes from one stage to another without a failure, as the list tells. -/
structure Crowd.Stores (w : Crowd SharedIndex StatusStage) (e : Event StatusStage)
    (u : Crowd SharedIndex StatusStage) : Prop where
  before : e.before = w.stage e.client
  put : u = w.put e.client e.after u.session
  does : StatusStage.Does e.before w.session e.after u.session

/-- Whatever a client does without a failure is on the list. -/
theorem Crowd.Stores.of_step (h : SharedIndex.protocol.Step w e u)
    (hready : Ready (pagesOf w.whole.session)) (hfine : e.after.hasFailed = false) :
    w.Stores e u := by
  refine h.elim (fun e u => e.after.hasFailed = false → w.Stores e u) ?_ ?_ hfine
  · intro client call hfree _
    refine ⟨rfl, rfl, ?_⟩
    show StatusStage.Does (w.stage client) w.session (.step (IndexStage.start call)) w.session
    generalize w.stage client = k at hfree ⊢
    change k.isFree = true at hfree
    unfold StatusStage.isFree at hfree
    split at hfree
    next answer =>
      exact .step (t := w.session.part SharedIndex.index) (fun _ _ => by simp) .call hready rfl
    next => cases hfree
  · intro client
    exact ((w.stage client).advance_does hready).mono
      (fun k t hdoes hfine => ⟨rfl, rfl, hdoes hfine⟩) fun _ _ _ hfine => (by cases hfine)

/-- Seen from the index a client takes a step of the index, or nothing happens. -/
theorem Crowd.Stores.goes (h : w.Stores e u) :
    w.whole.Goes ⟨e.client, e.before.whole, e.after.whole⟩ u.whole ∨ u.whole = w.whole := by
  have hbefore : e.before.whole = w.whole.stage e.client := congrArg StatusStage.whole h.before
  have hwhole : u.whole = w.whole.put e.client e.after.whole
      (u.session.part SharedIndex.index) := by
    rw [← whole_put, ← h.put]
  rcases h.does.whole with hdoes | ⟨hstage, hsession⟩
  · exact .inl ⟨hbefore, hwhole, hdoes⟩
  · rw [hstage, hsession, hbefore] at hwhole
    exact .inr (hwhole.trans (w.whole.put_stage e.client))

/-! ## What clients keep -/

/-- The status of an entry is the one on disk at its position. -/
def MessageIndex.IsStored (s : Session MessageIndex) (id : EntryId) : Prop :=
  ((bytesOf s).recordAt (s.memory.entry id).position).status = (s.memory.entry id).status.tag

/-- What is known of the statuses on disk and of the clients that are about to write them. -/
structure Crowd.Storing (first : MessageIndex) (w : Crowd SharedIndex StatusStage) : Prop where
  ready : Ready (pagesOf w.whole.session)
  accounted : w.whole.Accounted first
  locked : ∀ {client id}, (w.stage client).lock? = some id → id ∈ w.session.memory.locked
  alone : w.Apart StatusStage.lock?
  current : ∀ {client move id status}, w.stage client = .writeStatus move id status →
    (w.session.memory.index.entry id).status = status
      ∨ ∃ other move, w.stage other = .step (.persist move id)
  stored : ∀ {id}, first.Counted w.session.memory.index id →
    (∃ client e, w.whole.stage client = .writeRecord e id)
    ∨ MessageIndex.IsStored w.whole.session id
      ∨ ∃ client move, w.whole.stage client = .persist move id

namespace IndexStage

variable {k k' : IndexStage} {m m' : MessageIndex} {id : EntryId}

/-- A step that changes the status of an entry leads to the one that stores it. -/
theorem Does.status_or (h : Does k m k' m') (hlt : id < m.entries.size) :
    (m'.entry id).status = (m.entry id).status ∨ ∃ move, k' = .persist move id := by
  rcases h.status id with ⟨move, hmakes, -⟩ | ⟨-, hsame⟩
  · exact .inr ⟨move, hmakes.2⟩
  · exact .inl (hsame hlt)

theorem written_of_ne {records : Nat → Record} {p : Nat}
    (h : ∀ d id, k = .writeRecord d id → d.position ≠ p) : k.written records p = records p := by
  cases k with
  | writeRecord d id => exact Function.update_of_ne (Ne.symm (h d id rfl)) ..
  | _ => rfl

/-- A step makes no entry, or one whose record the client is about to write. -/
theorem Does.grows (h : Does k m k' m') : m'.entries.size = m.entries.size
    ∨ (∃ e, k' = .writeRecord e m.entries.size) ∧ m'.entries.size = m.entries.size + 1 := by
  cases h
  case place => exact .inr ⟨⟨_, rfl⟩, Array.size_push ..⟩
  case move => exact .inl (Array.size_modify ..)
  case takeOne => exact .inl (Array.size_modify ..)
  all_goals exact .inl rfl

end IndexStage

namespace Crowd.Storing

open StatusStage

theorem lt_size (h : w.Storing first) {id : EntryId}
    (hid : first.Counted w.session.memory.index id) :
    id < w.session.memory.index.entries.size := h.accounted.lt_size hid

/-- An entry that a client is about to store counts. -/
theorem counted_of_persist (h : w.Storing first) {client : Nat} {move : Move} {id : EntryId}
    (hstage : w.whole.stage client = .persist move id) : first.Counted w.session.memory.index id :=
  h.accounted.counted (.inr (.inr ⟨client, by rw [hstage]; exact List.mem_singleton_self id⟩))

/-- Other clients are where they were. -/
theorem stage_of_ne (hstep : w.Stores e u) {client : Nat} (hne : client ≠ e.client) :
    u.stage client = w.stage client := by
  rw [hstep.put]
  exact stage_put_of_ne _ hne ..

theorem stage_self (hstep : w.Stores e u) : u.stage e.client = e.after := by
  rw [hstep.put]
  exact stage_put_self ..

theorem locked_step (h : w.Storing first) (hstep : w.Stores e u) {client : Nat} {id : EntryId}
    (hid : (u.stage client).lock? = some id) : id ∈ u.session.memory.locked := by
  have hbefore := hstep.before
  have hdoes := hstep.does
  by_cases hne : client = e.client
  · rw [hne, stage_self hstep] at hid
    have hmine {id : EntryId} (hid : e.before.lock? = some id) : id ∈ w.session.memory.locked :=
      h.locked (hbefore ▸ hid)
    generalize e.before = k, e.after = k', w.session = s, u.session = t at *
    cases hdoes with
    | lock =>
      cases hid
      exact List.mem_cons_self
    | read => exact hmine hid
    | write => exact hmine hid
    | _ => cases hid
  · rw [stage_of_ne hstep hne] at hid
    have hother : e.before.lock? ≠ some id := by
      rw [hbefore]
      exact fun hmine => hne (h.alone _ _ _ hid hmine)
    have hlocked := h.locked hid
    generalize e.before = k, e.after = k', w.session = s, u.session = t at *
    cases hdoes with
    | lock => exact List.mem_cons_of_mem _ hlocked
    | unlock => exact (List.mem_erase_of_ne fun heq => hother (by rw [heq]; rfl)).mpr hlocked
    | _ => exact hlocked

theorem alone_step (h : w.Storing first) (hstep : w.Stores e u) : u.Apart lock? := by
  rw [hstep.put]
  refine h.alone.put fun {id} hid => ?_
  have hlocked {id : EntryId} (hfree : id ∉ w.session.memory.locked) (other : Nat) :
      (w.stage other).lock? ≠ some id := fun hother => hfree (h.locked hother)
  have hbefore := hstep.before
  have hdoes := hstep.does
  rw [← hbefore]
  generalize e.before = k, e.after = k', u.session = t at *
  generalize w.session = s at hdoes hlocked
  cases hdoes with
  | lock hfree =>
    cases hid
    exact .inr (hlocked hfree)
  | read => exact .inl hid
  | write => exact .inl hid
  | _ => cases hid

theorem current_step (h : w.Storing first) (hstep : w.Stores e u) {client : Nat} {move : Move}
    {id : EntryId} {status : Status} (hstage : u.stage client = .writeStatus move id status) :
    (u.session.memory.index.entry id).status = status
      ∨ ∃ other move, u.stage other = .step (.persist move id) := by
  have hdoes := hstep.does
  by_cases hne : client = e.client
  · -- the status was read just now
    rw [hne, stage_self hstep] at hstage
    generalize e.before = k, e.after = k', w.session = s, u.session = t at *
    cases hdoes with
    | read =>
      cases hstage
      exact .inl rfl
    | _ => cases hstage
  rw [stage_of_ne hstep hne] at hstage
  have hlocked : id ∈ w.session.memory.locked := h.locked (by rw [hstage]; rfl)
  have hwhole : w.whole.stage client = .persist move id := congrArg StatusStage.whole hstage
  have hlt := h.lt_size (h.counted_of_persist hwhole)
  have hself := stage_self hstep
  have hbefore := hstep.before
  -- a move of the status leads the client of this step to the lock, and who waited for it goes on
  -- to wait
  have hentry : (u.session.memory.index.entry id).status = (w.session.memory.index.entry id).status
      ∨ ∃ move, e.after = .step (.persist move id) := by
    generalize e.before = k, e.after = k', w.session = s, u.session = t at *
    cases hdoes with
    | step _ hdoes =>
      exact (hdoes.status_or hlt).imp_right fun hmoved => hmoved.imp fun _ => congrArg step
    | write file hmemory =>
      refine .inl ?_
      dsimp only
      rw [hmemory]
      rfl
    | _ => exact .inl rfl
  have hwaits {other : Nat} {move : Move} (hother : w.stage other = .step (.persist move id)) :
      u.stage other = .step (.persist move id) := by
    by_cases hne : other = e.client
    · rw [hne, hself]
      rw [hne, ← hbefore] at hother
      generalize e.before = k, e.after = k', w.session = s, u.session = t at *
      cases hdoes with
      | step hk =>
        cases hother
        exact absurd rfl (hk _ _)
      | wait => exact hother
      | lock hfree =>
        cases hother
        exact absurd hlocked hfree
      | _ => cases hother
    · rw [stage_of_ne hstep hne, hother]
  rcases hentry with hsame | ⟨move, hmoved⟩
  · rw [hsame]
    exact (h.current hstage).imp_right fun ⟨other, move, hother⟩ => ⟨other, move, hwaits hother⟩
  · exact .inr ⟨e.client, move, hself.trans hmoved⟩

/-- A step of the index leaves each status stored, or leaves someone to store it. -/
theorem stored_by_index (h : w.Storing first) {client : Nat} {k k' : IndexStage}
    {t : Session MessageIndex} (hstage : w.whole.stage client = k)
    (hk : ∀ move id, k ≠ .persist move id) (hdoes : k.Does w.session.memory.index k' t.memory)
    (hrecords : (bytesOf t).recordAt = k.written (bytesOf w.whole.session).recordAt) {id : EntryId}
    (hid : first.Counted t.memory id) :
    (∃ other e, (w.whole.put client k' t).stage other = .writeRecord e id)
      ∨ MessageIndex.IsStored t id
      ∨ ∃ other move, (w.whole.put client k' t).stage other = .persist move id := by
  have hstays {other : Nat} (hne : other ≠ client) :
      (w.whole.put client k' t).stage other = w.whole.stage other := stage_put_of_ne _ hne ..
  have hmine : (w.whole.put client k' t).stage client = k' := stage_put_self ..
  by_cases hnew : first.Counted w.session.memory.index id
  · have hlt := h.lt_size hnew
    -- the entry of a record that is written now is as it was made
    have hwriting {d : Entry} {other : EntryId} (hother : k = .writeRecord d other) :
        first.Counted w.session.memory.index other ∧ w.session.memory.index.entry other = d := by
      rw [hother] at hstage
      exact ⟨.inr (h.accounted.entered.owned (by rw [hstage]; rfl)),
        (h.accounted.made (by rw [hstage]; rfl)).1⟩
    have hwritten {d : Entry} (hthis : k = .writeRecord d id) : MessageIndex.IsStored t id := by
      have hentry : t.memory.entry id = d :=
        (hdoes.entry_eq hlt (by rw [hthis]; exact List.not_mem_nil)).trans (hwriting hthis).2
      unfold MessageIndex.IsStored
      rw [hentry, hrecords, hthis, IndexStage.written, Function.update_self]
      rfl
    rcases h.stored hnew with ⟨other, d, hother⟩ | hstored | ⟨other, move, hother⟩
    · by_cases hne : other = client
      · subst hne
        exact .inr (.inl (hwritten (hstage.symm.trans hother)))
      · exact .inl ⟨other, d, (hstays hne).trans hother⟩
    · rcases hdoes.status_or hlt with hsame | ⟨move, hmoved⟩
      · by_cases hthis : ∃ d, k = .writeRecord d id
        · obtain ⟨d, hthis⟩ := hthis
          exact .inr (.inl (hwritten hthis))
        · refine .inr (.inl ?_)
          unfold MessageIndex.IsStored at hstored ⊢
          rw [hdoes.spares.position hlt, hsame, hrecords, IndexStage.written_of_ne]
          · exact hstored
          · intro d other hother hposition
            obtain ⟨hcounted, rfl⟩ := hwriting hother
            have heq := h.accounted.position_injective hcounted hnew hposition
            subst heq
            exact hthis ⟨_, hother⟩
      · exact .inr (.inr ⟨client, move, hmine.trans hmoved⟩)
    · have hne : other ≠ client := fun heq => hk move id (hstage.symm.trans (heq ▸ hother))
      exact .inr (.inr ⟨other, move, (hstays hne).trans hother⟩)
  · rcases hdoes.grows with hsize | ⟨⟨d, hmade⟩, hsize⟩
    · refine absurd (hid.imp_right fun hrange => ?_) hnew
      exact ⟨hrange.1, hsize ▸ hrange.2⟩
    · have hlast : id = w.session.memory.index.entries.size := by
        rcases hid with hordered | ⟨hle, hlt⟩
        · exact absurd (.inl hordered) hnew
        · by_contra hne
          exact hnew (.inr
            ⟨hle, Nat.lt_of_le_of_ne (Nat.le_of_lt_succ (Nat.lt_of_lt_of_eq hlt hsize)) hne⟩)
      exact .inl ⟨client, d, by rw [hmine, hmade, hlast]⟩

/-- A status that is written over the one on disk is that of the entry, or someone is still to store
it. -/
theorem stored_by_write (h : w.Storing first) {client : Nat} {move : Move} {id : EntryId}
    {status : Status} {k' : IndexStage} {t : Session MessageIndex}
    (hstage : w.stage client = .writeStatus move id status)
    (hentries : t.memory.entries = w.session.memory.index.entries)
    (hrecords : (bytesOf t).recordAt = Function.update (bytesOf w.whole.session).recordAt
      (w.session.memory.index.entry id).position
      { (bytesOf w.whole.session).recordAt (w.session.memory.index.entry id).position with
        status := status.tag }) {other : EntryId} (hid : first.Counted t.memory other) :
    (∃ one e, (w.whole.put client k' t).stage one = .writeRecord e other)
      ∨ MessageIndex.IsStored t other
      ∨ ∃ one move, (w.whole.put client k' t).stage one = .persist move other := by
  have hstays {one : Nat} (hne : one ≠ client) :
      (w.whole.put client k' t).stage one = w.whole.stage one := stage_put_of_ne _ hne ..
  have hwhole : w.whole.stage client = .persist move id := congrArg StatusStage.whole hstage
  have hentry (one : EntryId) : t.memory.entry one = w.session.memory.index.entry one := by
    rw [MessageIndex.entry, hentries, MessageIndex.entry]
  have hcounted : first.Counted w.session.memory.index other := hid.imp_right fun hrange =>
    ⟨hrange.1, hentries ▸ hrange.2⟩
  by_cases hother : other = id
  · subst hother
    rcases h.current hstage with hsame | ⟨one, move', hone⟩
    · refine .inr (.inl ?_)
      unfold MessageIndex.IsStored
      rw [hentry, hrecords, Function.update_self, hsame]
    · have hne : one ≠ client := by
        rintro rfl
        rw [hstage] at hone
        cases hone
      exact .inr (.inr ⟨one, move', (hstays hne).trans (congrArg StatusStage.whole hone)⟩)
  · rcases h.stored hcounted with ⟨one, d, hone⟩ | hstored | ⟨one, move', hone⟩
    · have hne : one ≠ client := by
        rintro rfl
        rw [hwhole] at hone
        cases hone
      exact .inl ⟨one, d, (hstays hne).trans hone⟩
    · refine .inr (.inl ?_)
      unfold MessageIndex.IsStored at hstored ⊢
      rw [hentry, hrecords, Function.update_of_ne]
      · exact hstored
      · exact fun hposition => hother
          (h.accounted.position_injective hcounted (h.counted_of_persist hwhole) hposition)
    · have hne : one ≠ client := by
        rintro rfl
        rw [hwhole] at hone
        cases hone
        exact hother rfl
      exact .inr (.inr ⟨one, move', (hstays hne).trans hone⟩)

theorem stored_step (h : w.Storing first) (hstep : w.Stores e u) {id : EntryId}
    (hid : first.Counted u.session.memory.index id) :
    (∃ client e, u.whole.stage client = .writeRecord e id)
      ∨ MessageIndex.IsStored u.whole.session id
      ∨ ∃ client move, u.whole.stage client = .persist move id := by
  have hwhole := congrArg whole hstep.put
  rw [whole_put] at hwhole
  rw [hwhole]
  have hstage := hstep.before.symm
  have hdoes := hstep.does
  -- where nothing happens to the index, all clients are where they were
  have hnothing (hsame : e.after.whole = e.before.whole)
      (hsession : u.session.part SharedIndex.index = w.session.part SharedIndex.index) :
      w.whole.put e.client e.after.whole (u.session.part SharedIndex.index) = w.whole := by
    rw [hsame, hsession, hstep.before]
    exact w.whole.put_stage e.client
  have hstored := @h.stored id
  generalize e.before = k, e.after = k', hs : w.session = s, u.session = t at *
  cases hdoes with
  | step hk hdoes hready hrecords =>
    subst hs
    exact h.stored_by_index (congrArg StatusStage.whole hstage) hk hdoes hrecords hid
  | write file hmemory hready hrecords =>
    subst hs
    exact h.stored_by_write hstage (by rw [hmemory]) hrecords hid
  | _ =>
    rw [hnothing rfl rfl]
    exact hstored hid

theorem step (h : w.Storing first) (hstep : w.Stores e u) : u.Storing first where
  ready := by
    have hready := h.ready
    have hdoes := hstep.does
    show Ready (pagesOf (u.session.part SharedIndex.index))
    change Ready (pagesOf (w.session.part SharedIndex.index)) at hready
    generalize e.before = k, e.after = k', w.session = s, u.session = t at *
    cases hdoes with
    | step _ _ hready' => exact hready'
    | write _ _ hready' => exact hready'
    | _ => exact hready
  accounted := by
    rcases hstep.goes with hgoes | hsame
    · exact h.accounted.step hgoes
    · rw [hsame]
      exact h.accounted
  locked := h.locked_step hstep
  alone := h.alone_step hstep
  current := h.current_step hstep
  stored := h.stored_step hstep

end Crowd.Storing

/-! ## Runs -/

variable {s : Session MessageIndex} {trace : List (Event StatusStage)}

/-- At first all is stored. -/
theorem storing_unused (hs : MessageIndex.Begun s) : (SharedIndex.unused s).Storing s.memory := by
  obtain ⟨hready, held, hholds, hheld⟩ := hs.holds
  have haccounted := accounted_unused hs
  refine ⟨hready, haccounted, nofun, nofun, nofun, fun {id} hid => ?_⟩
  rcases hid with ⟨p, hid⟩ | ⟨hle, hlt⟩
  · refine .inr (.inl ?_)
    have hstored := (hheld p _ (hholds.held_of_ordered hid)).2
    rw [← (haccounted.placed hid).2.2] at hstored
    exact hstored
  · exact absurd hlt (Nat.not_lt.mpr hle)

theorem storing_of_run (hs : MessageIndex.Begun s)
    (hrun : SharedIndex.protocol.Run (SharedIndex.unused s) trace w)
    (hfine : ∀ e ∈ trace, e.after.hasFailed = false) : w.Storing s.memory :=
  hrun.keeps (fun v => v.Storing s.memory) (storing_unused hs) fun hstep hmem hv =>
    hv.step (.of_step hstep hv.ready (hfine _ hmem))

/-- Any number of clients share an index that was just initialized and push, take, give back and
finish messages, and no access to the pages fails. Whenever no client is in a call, the status on
disk of every message that was in the queue at first or has entered it since is the one that its
entry has. -/
theorem statuses_stored (hs : MessageIndex.Begun s)
    (hrun : SharedIndex.protocol.Run (SharedIndex.unused s) trace w)
    (hfine : ∀ e ∈ trace, e.after.hasFailed = false)
    (hrest : ∀ client, (w.stage client).isFree = true)
    (id : EntryId) (hid : s.memory.Counted w.session.memory.index id) :
    MessageIndex.IsStored (w.session.part SharedIndex.index) id := by
  have hfree (client : Nat) : ∃ answer, w.whole.stage client = .ended answer := by
    have hfree := hrest client
    unfold StatusStage.isFree at hfree
    split at hfree
    next answer hstage => exact ⟨answer, congrArg StatusStage.whole hstage⟩
    next => cases hfree
  rcases (storing_of_run hs hrun hfine).stored hid with ⟨client, e, hstage⟩ | hstored
    | ⟨client, move, hstage⟩
  · obtain ⟨answer, hended⟩ := hfree client
    rw [hended] at hstage
    cases hstage
  · exact hstored
  · obtain ⟨answer, hended⟩ := hfree client
    rw [hended] at hstage
    cases hstage

/-- A client takes a message and has read that it is taken when another one gives the message back,
which then waits for the first one to write what it has read. -/
def lateStatus : List (Nat × IndexCall) :=
  List.replicate 9 (0, .push ⟨⟨1⟩, 0, 0, .text⟩) ++ List.replicate 6 (1, .move .lock ⟨1⟩)
    ++ List.replicate 5 (2, .move .rollback ⟨1⟩) ++ List.replicate 2 (1, .move .lock ⟨1⟩)
    ++ List.replicate 4 (2, .move .rollback ⟨1⟩)

open SharedIndex in
theorem statuses_stored_lateStatus :
    ((bytesOf ((protocol.perform (unused (MessageIndex.startEmpty.outcome emptyDirectory).2)
      lateStatus).2.session.part SharedIndex.index)).recordAt 0).status = Status.new.tag := by
  have hfine : (protocol.perform (unused (MessageIndex.startEmpty.outcome emptyDirectory).2)
      lateStatus).1.all (fun e => !e.after.hasFailed) = true := by decide +kernel
  have hended : (List.range 3).all (fun client => ((protocol.perform (unused
      (MessageIndex.startEmpty.outcome emptyDirectory).2) lateStatus).2.stage client).isFree)
      = true := by
    decide +kernel
  have hfree := Protocol.forall_stage_perform (p := StatusStage.isFree)
      (fun _ => rfl) (by decide) hended
  have hstored := statuses_stored begun_emptyDirectory (Protocol.run_perform _ _ lateStatus)
    (fun e he => by simpa using List.all_eq_true.mp hfine e he) hfree 0 (.inr (by decide +kernel))
  have hentry : ((protocol.perform (unused (MessageIndex.startEmpty.outcome emptyDirectory).2)
      lateStatus).2.session.memory.index.entry 0) = ⟨⟨1⟩, 0, 0, .text, 0, .new⟩ := by decide +kernel
  unfold MessageIndex.IsStored at hstored
  rw [Session.memory_part, hentry] at hstored
  exact hstored

end PagedQueue
