import PagedQueue.Index.StatusClients
import PagedQueue.Proofs.IndexRecovery
import PagedQueue.Proofs.IndexReferences

/-!
# What the steps that store a status do

What a step does to the index, to the locks of the entries and to the records on disk is listed once
(`StatusStage.Does`), for steps whose access to the pages does not fail. Seen from the index alone a
client that is in the section of a status is still at the step that stores it (`StatusStage.whole`),
and so each step is one of the index or leaves it as it is (`Does.whole`).

A client that is alone comes to what the procedure of its call comes to
(`SharedIndex.call_run_alone`).
-/

namespace PagedQueue

open Procedure
open MessageIndex (bytesOf pagesOf)
open PageStore (Ready)

namespace ByteSpace

/-- A record that is written changes the record at its position. -/
theorem recordAt_write_record (b : ByteSpace) (position : Nat) (r : Record) :
    (b.write (Record.place position) r.encode).recordAt
      = Function.update b.recordAt position r := by
  funext p
  by_cases hp : p = position
  · subst hp
    rw [recordAt_write, Function.update_self]
  · rw [Function.update_of_ne hp]
    refine recordAt_write_of_disjoint ?_
    rw [Record.length_encode]
    rcases Nat.lt_or_gt_of_ne hp with hlt | hgt
    · exact .inl (place_add_size_le hlt)
    · exact .inr (place_add_size_le hgt)

/-- A status that is written changes the record at its position. -/
theorem recordAt_write_tag (b : ByteSpace) (position : Nat) (tag : Int32) :
    (b.write (Record.place position + Record.statusOffset) (encodeInt32 tag)).recordAt
      = Function.update b.recordAt position { b.recordAt position with status := tag } := by
  funext p
  by_cases hp : p = position
  · subst hp
    rw [recordAt_write_status, Function.update_self]
  · rw [Function.update_of_ne hp, recordAt_write_status_of_ne (Ne.symm hp)]

end ByteSpace

namespace IndexStage

variable {s : Session MessageIndex}

/-- The records once a step has succeeded: it writes one at most. -/
def written (k : IndexStage) (records : Nat → Record) : Nat → Record :=
  match k with
  | .writeRecord e _ => Function.update records e.position e.toRecord
  | _ => records

/-- What a step of the index leaves on disk. The step that stores a status is not among these. -/
theorem advance_stores {k : IndexStage} (hk : ∀ move id, k ≠ .persist move id)
    (hready : Ready (pagesOf s)) :
    k.advance.Leads s
      (fun k' t => k'.hasFailed = false →
        Ready (pagesOf t) ∧ (bytesOf t).recordAt = k.written (bytesOf s).recordAt)
      fun _ _ => True := by
  cases k with
  | persist move id => exact absurd rfl (hk move id)
  | writeRecord e id =>
    refine guarded_leads ?_
    unfold MessageIndex.writeRecord MessageIndex.onFile
    rw [leads_within]
    refine (PagedFile.writeBytes_leads (s := s.part MessageIndex.file) hready _ _).mono
      (fun _ t ht _ => ⟨ht.touches.ready, ?_⟩) fun _ _ _ hfailed => (by cases hfailed)
    show (PagedFile.bytesOf t).recordAt = _
    rw [ht.bytesOf_eq, ByteSpace.recordAt_write_record]
    rfl
  | raiseCount e id =>
    have hcount : encodeInt32 (Int32.ofNat (e.position + 1)) ≠ [] :=
      List.ne_nil_of_length_pos (by simp)
    refine guarded_leads ?_
    unfold MessageIndex.raiseCount MessageIndex.onFile PagedFile.writeInt32
    simp only [leads_bind, leads_memory, leads_ite, leads_within, leads_update, leads_pure]
    split
    · refine (PagedFile.writeWord_leads (s := s.part MessageIndex.file) hready _ hcount).mono
        (fun _ t ht _ => ⟨ht.1.touches.ready, ?_⟩) fun _ _ _ hfailed => (by cases hfailed)
      show (PagedFile.bytesOf t).recordAt = _
      rw [ht.1.bytesOf_eq]
      exact funext fun p => ByteSpace.recordAt_write_count _ p
    · exact fun _ => ⟨hready, rfl⟩
  | notePending d =>
    unfold advance MessageIndex.notePending
    simp only [leads_bind, leads_memory, leads_ite]
    split <;> exact fun _ => ⟨hready, rfl⟩
  | checkLive d =>
    unfold advance
    simp only [leads_bind, leads_memory, leads_ite]
    split <;> exact fun _ => ⟨hready, rfl⟩
  | lookUp move uuid =>
    unfold advance
    simp only [leads_bind, leads_memory]
    split <;> exact fun _ => ⟨hready, rfl⟩
  | checkStatus move id =>
    unfold advance
    simp only [leads_bind, leads_memory, leads_ite]
    split <;> exact fun _ => ⟨hready, rfl⟩
  | setStatus move id =>
    unfold advance MessageIndex.compareAndSet
    simp only [leads_bind, leads_memory, leads_ite]
    split <;> exact fun _ => ⟨hready, rfl⟩
  | leaveLive id =>
    unfold advance MessageIndex.leaveLive
    simp only [leads_bind, leads_memory, leads_ite]
    split <;> exact fun _ => ⟨hready, rfl⟩
  | takeFirst ids =>
    cases ids with
    | nil => exact fun _ => ⟨hready, rfl⟩
    | cons id rest =>
      unfold advance MessageIndex.compareAndSet
      simp only [leads_bind, leads_memory, leads_ite]
      split <;> exact fun _ => ⟨hready, rfl⟩
  | _ => exact fun _ => ⟨hready, rfl⟩

end IndexStage

namespace StatusStage

/-- The step of the index that a client is at. In the section of a status it is still the one that
stores the status. -/
def whole : StatusStage → IndexStage
  | .step k => k
  | .readStatus move id | .writeStatus move id _ => .persist move id
  | .unlock move id answer => stored move id answer

/-- The entry whose lock a client has. -/
def lock? : StatusStage → Option EntryId
  | .step _ => none
  | .readStatus _ id | .writeStatus _ id _ | .unlock _ id _ => some id

/-- What a step does that does not fail: the stage and the session before it, and the same after
it. -/
inductive Does : StatusStage → Session SharedIndex → StatusStage → Session SharedIndex → Prop
  | step {k k' s} {t : Session MessageIndex} (hk : ∀ move id, k ≠ .persist move id)
      (h : IndexStage.Does k s.memory.index k' t.memory) (hready : Ready (pagesOf t))
      (hrecords : (bytesOf t).recordAt = k.written (bytesOf (s.part SharedIndex.index)).recordAt) :
      Does (.step k) s (.step k') ⟨t.host, { s.memory with index := t.memory }⟩
  | wait {move id s} : Does (.step (.persist move id)) s (.step (.persist move id)) s
  | lock {move id s} (hfree : id ∉ s.memory.locked) :
      Does (.step (.persist move id)) s (.readStatus move id)
        ⟨s.host, { s.memory with locked := id :: s.memory.locked }⟩
  | read {move id s} :
      Does (.readStatus move id) s (.writeStatus move id (s.memory.index.entry id).status) s
  | write {move id status s} {t : Session MessageIndex} (file : PagedFile)
      (hmemory : t.memory = { s.memory.index with file }) (hready : Ready (pagesOf t))
      (hrecords : (bytesOf t).recordAt = Function.update
        (bytesOf (s.part SharedIndex.index)).recordAt (s.memory.index.entry id).position
        { (bytesOf (s.part SharedIndex.index)).recordAt (s.memory.index.entry id).position with
          status := status.tag }) :
      Does (.writeStatus move id status) s (.unlock move id (.ok ()))
        ⟨t.host, { s.memory with index := t.memory }⟩
  | unlock {move id answer s} :
      Does (.unlock move id answer) s (.step (stored move id answer))
        ⟨s.host, { s.memory with locked := s.memory.locked.erase id }⟩

variable {s : Session SharedIndex}

theorem step_does {k : IndexStage} (hk : ∀ move id, k ≠ .persist move id)
    (hready : Ready (pagesOf (s.part SharedIndex.index))) :
    (do return .step (← onIndex k.advance) : Procedure SharedIndex StatusStage).Leads s
      (fun k' t => k'.hasFailed = false → Does (.step k) s k' t) fun _ _ => True := by
  unfold onIndex
  simp only [leads_bind, leads_within, leads_pure]
  refine ((k.advance_does (s := s.part SharedIndex.index)).and
    (IndexStage.advance_stores hk hready)).mono
    (fun k' t ht hfine => ?_) fun _ _ _ => trivial
  obtain ⟨hready', hrecords⟩ := ht.2 hfine
  exact .step hk ht.1 hready' hrecords

theorem advance_does (k : StatusStage) (hready : Ready (pagesOf (s.part SharedIndex.index))) :
    k.advance.Leads s (fun k' t => k'.hasFailed = false → Does k s k' t) fun _ _ => True := by
  cases k with
  | step k =>
    cases k with
    | persist move id =>
      unfold advance
      simp only [leads_bind, leads_memory, leads_ite, leads_update, leads_pure]
      split
      · exact fun _ => .wait
      next hfree => exact fun _ => .lock hfree
    | _ => exact step_does (fun _ _ => by simp) hready
  | readStatus move id => exact fun _ => .read
  | writeStatus move id status =>
    have htag : encodeInt32 status.tag ≠ [] := List.ne_nil_of_length_pos (by simp)
    unfold advance onIndex MessageIndex.writeStatus MessageIndex.onFile PagedFile.writeInt32
    rw [leads_tryCatch]
    simp only [leads_bind, leads_memory, leads_within, leads_pure]
    refine (PagedFile.writeWord_leads (s := (s.part SharedIndex.index).part MessageIndex.file)
      hready _ htag).mono (fun _ t ht _ => ?_) fun _ _ _ hfailed => (by cases hfailed)
    have hrecords := congrArg ByteSpace.recordAt ht.1.bytesOf_eq
    rw [ByteSpace.recordAt_write_tag] at hrecords
    exact .write (t := ⟨t.host, { s.memory.index with file := t.memory }⟩) t.memory rfl
      ht.1.touches.ready hrecords
  | unlock move id answer => exact fun _ => .unlock

/-- Seen from the index a step is one of the index, or nothing happens. -/
theorem Does.whole {k k' : StatusStage} {t : Session SharedIndex} (h : Does k s k' t) :
    IndexStage.Does k.whole s.memory.index k'.whole t.memory.index
      ∨ k'.whole = k.whole ∧ t.part SharedIndex.index = s.part SharedIndex.index := by
  cases h with
  | step _ hdoes => exact .inl hdoes
  | write file hmemory =>
    refine .inl ?_
    dsimp only
    rw [hmemory]
    exact .persist file
  | _ => exact .inr ⟨rfl, rfl⟩

/-! ## Calls as wholes -/

/-- A procedure on the index, after which a lock is given back. -/
def unlocking (id : EntryId) (p : Procedure MessageIndex (Option EntryId)) :
    Procedure SharedIndex (Option EntryId) :=
  within SharedIndex.index (fun index s => { index, locked := s.locked.erase id }) p

/-- What a client has left to do at a stage, if no other client disturbs it. -/
def rest : StatusStage → Procedure SharedIndex (Option EntryId)
  | .step k => onIndex k.rest
  | .readStatus move id => unlocking id (IndexStage.settling move id)
  | .writeStatus move id status => unlocking id do
    MessageIndex.writeStatus id status
    (stored move id (.ok ())).rest
  | .unlock move id answer => unlocking id (stored move id answer).rest

/-- How many steps there are at most to the next one of another stage of the index. -/
def stepsInSection : StatusStage → Nat
  | .writeStatus _ _ _ => 0
  | .readStatus _ _ => 1
  | .step _ => 2
  | .unlock _ _ _ => 3

/-- How far a call is from its end. -/
def distance (k : StatusStage) : (Nat ×ₗ Nat) ×ₗ Nat := toLex (k.whole.distance, k.stepsInSection)

theorem distance_lt_of_whole {k k' : StatusStage} (h : k'.whole.distance < k.whole.distance) :
    k'.distance < k.distance := Prod.Lex.toLex_lt_toLex.mpr (.inl h)

theorem distance_lt_of_section {k k' : StatusStage} (hwhole : k'.whole = k.whole)
    (h : k'.stepsInSection < k.stepsInSection) : k'.distance < k.distance :=
  Prod.Lex.toLex_lt_toLex.mpr (.inr ⟨by rw [hwhole], h⟩)

private theorem settling_eq (move : Move) (id : EntryId) :
    IndexStage.settling move id
      = MessageIndex.persistStatus id >>= fun _ => (stored move id (.ok ())).rest :=
  bind_congr fun _ => by
    unfold stored
    dsimp only
    split <;> rfl

/-- The status of an entry is stored by writing the one that it has. -/
private theorem persistStatus_apply (id : EntryId) (s : Session MessageIndex) :
    MessageIndex.persistStatus id s = MessageIndex.writeStatus id (s.memory.entry id).status s := by
  simp only [MessageIndex.persistStatus, MessageIndex.writeStatus, bind, EStateM.bind, memory]

private theorem stored_distance_lt (move : Move) (id : EntryId) (answer : Except Fault Unit) :
    (stored move id answer).distance < (IndexStage.persist move id).distance := by
  have hlt {a b : Nat} (hlt : a < b) : toLex (0, a) < toLex (0, b) :=
    Prod.Lex.toLex_lt_toLex.mpr (.inr ⟨rfl, hlt⟩)
  cases answer with
  | ok =>
    unfold stored
    dsimp only
    split <;> exact hlt (by decide)
  | error => exact hlt (by decide)

/-- What a client that is alone relies on: it has the locks that it has taken, and no one has
others. -/
def Alone (k : StatusStage) (s : Session SharedIndex) : Prop := s.memory.locked = k.lock?.toList

/-- The next step of a client that is alone leaves to do what was left before it. -/
def GoesOn (k : StatusStage) (s : Session SharedIndex) (k' : StatusStage)
    (t : Session SharedIndex) : Prop :=
  k'.rest.outcome t = k.rest.outcome s
    ∧ ((∃ answer, k = .step (.ended answer)) ∨ k'.Alone t ∧ k'.distance < k.distance)

private theorem step_goesOn {k : IndexStage} (halone : (step k).Alone s) :
    (do return .step (← onIndex k.advance) : Procedure SharedIndex StatusStage).Leads s
      (fun k' t => GoesOn (.step k) s k' t) fun fault t => (step k).rest.outcome s
        = (.error fault, t) := by
  have hrest : k.rest.outcome (s.part SharedIndex.index)
      = (k.advance >>= IndexStage.rest).outcome (s.part SharedIndex.index) := by
      rw [← k.rest_advance]
  unfold onIndex
  simp only [leads_bind, leads_within, leads_pure]
  refine ((k.advance_does (s := s.part SharedIndex.index)).and (leads_answer k.advance _)).mono
    (fun k' t ht => ?_) fun fault t ht => ?_
  · have hgoes : k.rest.outcome (s.part SharedIndex.index) = k'.rest.outcome t := by
      rw [hrest]
      simp only [outcome, bind, EStateM.bind, ht.2]
    refine ⟨?_, ht.1.distance_lt.imp
      (fun hended => hended.imp fun _ heq => congrArg step heq) fun hlt =>
      ⟨halone, distance_lt_of_whole hlt⟩⟩
    simp only [rest, onIndex, outcome_within, hgoes]
    rfl
  · have hfails : k.rest.outcome (s.part SharedIndex.index) = (.error fault, t) := by
      rw [hrest]
      simp only [outcome, bind, EStateM.bind, ht.2]
    simp only [rest, onIndex, outcome_within, hfails]

theorem advance_goesOn {k : StatusStage} (halone : k.Alone s) :
    k.advance.Leads s (fun k' t => GoesOn k s k' t) fun fault t => k.rest.outcome s
      = (.error fault, t) := by
  cases k with
  | step k =>
    cases k with
    | persist move id =>
      have hlocked : s.memory.locked = [] := halone
      unfold advance
      simp only [leads_bind, leads_memory, leads_ite, leads_update, leads_pure]
      rw [if_neg (by simp [hlocked])]
      refine ⟨?_, .inr
        ⟨congrArg (id :: ·) hlocked, distance_lt_of_section rfl (by simp [stepsInSection])⟩⟩
      simp only [rest, unlocking, onIndex, outcome_within, List.erase_cons_head]
      rfl
    | _ => exact step_goesOn halone
  | readStatus move id =>
    refine ⟨?_, .inr ⟨halone, distance_lt_of_section rfl (by simp [stepsInSection])⟩⟩
    have hsame : (IndexStage.settling move id).outcome (s.part SharedIndex.index)
        = (MessageIndex.writeStatus id (s.memory.index.entry id).status >>= fun _ =>
            (stored move id (.ok ())).rest).outcome (s.part SharedIndex.index) := by
      rw [settling_eq]
      simp only [outcome, bind, EStateM.bind, persistStatus_apply]
      rfl
    simp only [rest, unlocking, outcome_within, hsame]
  | writeStatus move id status =>
    unfold advance onIndex
    rw [leads_tryCatch]
    simp only [leads_bind, leads_within, leads_pure]
    refine (leads_answer (MessageIndex.writeStatus id status) _).mono
      (fun _ t ht => ?_) fun fault t ht => ?_
    · refine ⟨?_, .inr ⟨halone, distance_lt_of_whole (stored_distance_lt move id (.ok ()))⟩⟩
      simp only [rest, unlocking, outcome_within]
      simp only [outcome, bind, EStateM.bind, ht]
      rfl
    · refine ⟨?_, .inr ⟨halone, distance_lt_of_whole (stored_distance_lt move id (.error fault))⟩⟩
      simp only [rest, unlocking, outcome_within]
      simp only [outcome, bind, EStateM.bind, ht]
      rfl
  | unlock move id answer =>
    have hlocked : s.memory.locked = [id] := halone
    refine ⟨?_, .inr ⟨?_, distance_lt_of_section rfl (by simp [stepsInSection])⟩⟩
    · simp only [rest, unlocking, onIndex, outcome_within]
      rfl
    · show s.memory.locked.erase id = []
      rw [hlocked, List.erase_cons_head]

end StatusStage

/-- A client that no other one disturbs makes its call to the end, and the call answers and leaves
the index as its procedure does. -/
theorem SharedIndex.call_run_alone {w : Crowd SharedIndex StatusStage} {client : Nat}
    (hfree : w.session.memory.locked = []) (call : IndexCall) :
    ∃ trace u, protocol.Run (protocol.call w client call) trace u ∧ (∀ e ∈ trace, e.client = client)
      ∧ u.stage client
        = .step (.ended (call.procedure.outcome (w.session.part SharedIndex.index)).1)
      ∧ u.session = ⟨(call.procedure.outcome (w.session.part SharedIndex.index)).2.host,
          { index := (call.procedure.outcome (w.session.part SharedIndex.index)).2.memory }⟩ := by
  have halone := @Protocol.exists_run_alone_of _ _ _ protocol _ _ _ _ StatusStage.rest
    (fun answer => .step (.ended answer)) StatusStage.Alone StatusStage.distance
    (fun answer s _ => by cases answer <;> rfl) (fun _ => rfl)
    (fun k s hs => StatusStage.advance_goesOn hs) (protocol.call w client call) client ?_
  · have hstage : (protocol.call w client call).stage client = .step (IndexStage.start call) :=
      w.stage_put_self ..
    have hsession : (protocol.call w client call).session = w.session := rfl
    rw [hstage] at halone
    simp only [StatusStage.rest, StatusStage.onIndex, outcome_within, IndexStage.rest_start,
      hsession, hfree] at halone
    exact halone
  · have hstage : (protocol.call w client call).stage client = .step (IndexStage.start call) :=
      w.stage_put_self ..
    rw [hstage]
    exact hfree

end PagedQueue
