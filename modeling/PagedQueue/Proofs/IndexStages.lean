import Mathlib.Data.Prod.Lex
import PagedQueue.Index.Clients
import PagedQueue.Index.Recovery
import PagedQueue.Proofs.ClientRuns

/-!
# What the steps of a call do

What the step of a stage does to the index, and to which stages it can lead, is listed once
(`IndexStage.Does`), and all that is said of clients that share an index is read off this list.

The steps of a call make up the call: what a client has left to do at a stage (`IndexStage.rest`) is
the step of the stage and then what it has left to do after it (`rest_advance`). So a client that is
alone comes to the answer and the index that the procedure of its call comes to
(`exists_run_alone`).
-/

namespace PagedQueue

open Procedure

namespace IndexStage

/-- What a step does: the stage and the index before it, and the stage and the index after it. A
client whose call is over can begin another one. -/
inductive Does : IndexStage → MessageIndex → IndexStage → MessageIndex → Prop
  | call {answer call m} : Does (.ended answer) m (start call) m
  | note {d m} (h : m.pending.contains d.uuid = false) :
      Does (.notePending d) m (.checkLive d) { m with pending := m.pending.insert d.uuid }
  | noteInVain {d m} : Does (.notePending d) m (.ended (.ok none)) m
  | know {d m} : Does (.checkLive d) m (.refuse d.uuid) m
  | allow {d m} (h : m.live[d.uuid]? = none) : Does (.checkLive d) m (.takePosition d) m
  | refuse {uuid m} :
      Does (.refuse uuid) m (.ended (.ok none)) { m with pending := m.pending.erase uuid }
  | place {d m} :
      Does (.takePosition d) m (.writeRecord (d.entry m.next) m.entries.size)
        { m with next := m.next + 1, entries := m.entries.push (d.entry m.next) }
  | write {e id m} (file : PagedFile) :
      Does (.writeRecord e id) m (.raiseCount e id) { m with file }
  | failWriting {e id m} (file : PagedFile) (fault : Fault) :
      Does (.writeRecord e id) m (.withdraw e.uuid (.error fault)) { m with file }
  | raise {e id m} (file : PagedFile) (count : Nat) :
      Does (.raiseCount e id) m (.enterLive e id) { m with file, count }
  | failRaising {e id m} (file : PagedFile) (fault : Fault) :
      Does (.raiseCount e id) m (.withdraw e.uuid (.error fault)) { m with file }
  | enterLive {e id m} :
      Does (.enterLive e id) m (.enterOrdered e id) { m with live := m.live.insert e.uuid id }
  | enterOrdered {e id m} :
      Does (.enterOrdered e id) m (.withdraw e.uuid (.ok id))
        { m with ordered := m.ordered.insert e.position id }
  | withdraw {uuid answer m} :
      Does (.withdraw uuid answer) m (.ended (answer.map some))
        { m with pending := m.pending.erase uuid }
  | find {move uuid id m} (h : m.live[uuid]? = some id) :
      Does (.lookUp move uuid) m (.checkStatus move id) m
  | findNone {move uuid m} : Does (.lookUp move uuid) m (.ended (.ok none)) m
  | accept {move id m} (h : (m.entry id).status.isLive = true) :
      Does (.checkStatus move id) m (.setStatus move id) m
  | decline {move id m} : Does (.checkStatus move id) m (.ended (.ok none)) m
  | move {move id m} (h : (m.entry id).status = move.source) :
      Does (.setStatus move id) m (.persist move id)
        { m with entries := m.entries.modify id ({ · with status := move.target }) }
  | miss {move id m} : Does (.setStatus move id) m (.ended (.ok none)) m
  | persist {move id m} (file : PagedFile) :
      Does (.persist move id) m (if move = .finish then .leaveLive id else .ended (.ok (some id)))
        { m with file }
  | failPersisting {move id m} (file : PagedFile) (fault : Fault) :
      Does (.persist move id) m (.ended (.error fault)) { m with file }
  | leaveLive {id m} (h : m.live[(m.entry id).uuid]? = some id) :
      Does (.leaveLive id) m (.leaveOrdered id) { m with live := m.live.erase (m.entry id).uuid }
  | leaveOther {id m} (h : m.live[(m.entry id).uuid]? ≠ some id) :
      Does (.leaveLive id) m (.leaveOrdered id) m
  | leaveOrdered {id m} :
      Does (.leaveOrdered id) m (.ended (.ok (some id)))
        { m with ordered := m.ordered.erase (m.entry id).position }
  | list {m} : Does .listOrdered m (.takeFirst m.ordered.values) m
  | takeNone {m} : Does (.takeFirst []) m (.ended (.ok none)) m
  | takeOne {id rest m} (h : (m.entry id).status = .new) :
      Does (.takeFirst (id :: rest)) m (.persist .lock id)
        { m with entries := m.entries.modify id ({ · with status := .locked }) }
  | takeLater {id rest m} : Does (.takeFirst (id :: rest)) m (.takeFirst rest) m
  | stay {answer m} : Does (.ended answer) m (.ended answer) m

variable {s : Session MessageIndex}

/-- A procedure on the file changes nothing else of the index. -/
theorem onFile_leads {α : Type} (p : Procedure PagedFile α) :
    (MessageIndex.onFile p).Leads s (fun _ t => ∃ file, t.memory = { s.memory with file })
      fun _ t => ∃ file, t.memory = { s.memory with file } := by
  unfold MessageIndex.onFile
  rw [leads_within]
  unfold Leads
  split <;> exact ⟨_, rfl⟩

theorem guarded_leads {uuid : Uuid} {p : Procedure MessageIndex Unit} {next : IndexStage}
    {done : IndexStage → Session MessageIndex → Prop} {failed : Fault → Session MessageIndex → Prop}
    (h : p.Leads s (fun _ t => done next t) fun fault t => done (.withdraw uuid (.error fault)) t) :
    (guarded uuid p next).Leads s done failed := by
  unfold guarded
  rw [leads_tryCatch, leads_bind]
  exact h

theorem raiseCount_leads (count : Nat) :
    (MessageIndex.raiseCount count).Leads s
      (fun _ t => ∃ file count, t.memory = { s.memory with file, count })
      fun _ t => ∃ file, t.memory = { s.memory with file } := by
  unfold MessageIndex.raiseCount
  rw [leads_bind, leads_memory, leads_ite]
  split
  · rw [leads_bind]
    refine (onFile_leads _).mono (fun _ t ht => ?_) fun _ _ => id
    obtain ⟨file, hfile⟩ := ht
    rw [leads_update, hfile]
    exact ⟨file, count, rfl⟩
  · exact ⟨s.memory.file, s.memory.count, rfl⟩

/-- A step does what its stage says, and a fault of it ends the call. -/
theorem advance_does (k : IndexStage) :
    k.advance.Leads s (fun k' t => Does k s.memory k' t.memory)
      fun fault t => Does k s.memory (.ended (.error fault)) t.memory := by
  cases k with
  | notePending d =>
    unfold advance MessageIndex.notePending
    rw [leads_bind, leads_bind, leads_memory, leads_ite]
    split
    · exact .noteInVain
    next h => exact .note (Bool.eq_false_iff.mpr h)
  | checkLive d =>
    unfold advance
    rw [leads_bind, leads_memory, leads_ite]
    split
    · exact .know
    next h =>
      rw [Std.TreeMap.contains_eq_isSome_getElem?, Option.not_isSome_iff_eq_none] at h
      exact .allow h
  | refuse uuid => exact .refuse
  | takePosition d => exact .place
  | writeRecord e id =>
    refine guarded_leads ((onFile_leads _).mono (fun _ t ht => ?_) fun fault t ht => ?_)
    · obtain ⟨file, hfile⟩ := ht
      rw [hfile]
      exact .write file
    · obtain ⟨file, hfile⟩ := ht
      rw [hfile]
      exact .failWriting file fault
  | raiseCount e id =>
    refine guarded_leads ((raiseCount_leads _).mono (fun _ t ht => ?_) fun fault t ht => ?_)
    · obtain ⟨file, count, hfile⟩ := ht
      rw [hfile]
      exact .raise file count
    · obtain ⟨file, hfile⟩ := ht
      rw [hfile]
      exact .failRaising file fault
  | enterLive e id => exact .enterLive
  | enterOrdered e id => exact .enterOrdered
  | withdraw uuid answer => exact .withdraw
  | lookUp move uuid =>
    unfold advance
    rw [leads_bind, leads_memory]
    split
    next id h => exact .find h
    next => exact .findNone
  | checkStatus move id =>
    unfold advance
    rw [leads_bind, leads_memory, leads_ite]
    split
    next h => exact .accept h
    next => exact .decline
  | setStatus move id =>
    unfold advance MessageIndex.compareAndSet
    rw [leads_bind, leads_bind, leads_memory, leads_ite]
    split
    next h => exact .move h
    next => exact .miss
  | persist move id =>
    unfold advance MessageIndex.persistStatus
    rw [leads_bind, leads_bind, leads_memory]
    refine (onFile_leads _).mono (fun _ t ht => ?_) fun fault t ht => ?_
    · obtain ⟨file, hfile⟩ := ht
      rw [leads_pure, hfile]
      exact .persist file
    · obtain ⟨file, hfile⟩ := ht
      rw [hfile]
      exact .failPersisting file fault
  | leaveLive id =>
    unfold advance MessageIndex.leaveLive
    rw [leads_bind, leads_bind, leads_memory]
    dsimp only
    rw [leads_bind, leads_memory, leads_ite]
    split
    next h => exact .leaveLive h
    next h => exact .leaveOther h
  | leaveOrdered id => exact .leaveOrdered
  | listOrdered => exact .list
  | takeFirst ids =>
    cases ids with
    | nil => exact .takeNone
    | cons id rest =>
      unfold advance MessageIndex.compareAndSet
      rw [leads_bind, leads_bind, leads_memory, leads_ite]
      split
      next h => exact .takeOne h
      next => exact .takeLater
  | ended answer => exact .stay

end IndexStage

/-- One client goes from one stage to another, as the list tells. -/
structure Crowd.Goes (w : Crowd MessageIndex IndexStage) (e : Event IndexStage)
    (u : Crowd MessageIndex IndexStage) : Prop where
  before : e.before = w.stage e.client
  put : u = w.put e.client e.after u.session
  does : IndexStage.Does e.before w.session.memory e.after u.session.memory

namespace IndexStage

/-- Whatever a client does is on the list. -/
theorem Does.of_step {w u : Crowd MessageIndex IndexStage} {e : Event IndexStage}
    (h : MessageIndex.protocol.Step w e u) : w.Goes e u := by
  refine h.elim (fun e u => w.Goes e u) ?_ ?_
  · intro client call hfree
    refine ⟨rfl, rfl, ?_⟩
    generalize w.stage client = k at hfree ⊢
    cases k with
    | ended answer => exact .call
    | _ => cases hfree
  · intro client
    exact (advance_does _).mono (fun k t hdoes => ⟨rfl, rfl, hdoes⟩)
      fun fault t hdoes => ⟨rfl, rfl, hdoes⟩

/-! ## Calls as wholes -/

/-- Enters a message under a reservation, which ends with it. -/
def entering (e : Entry) (id : EntryId) (p : Procedure MessageIndex Unit) :
    Procedure MessageIndex (Option EntryId) :=
  return some (← tryFinally (do p; return id) (MessageIndex.withdraw e.uuid))

/-- Takes a finished message out of the indexes. -/
def leaving (id : EntryId) : Procedure MessageIndex (Option EntryId) := do
  MessageIndex.leaveLive id
  MessageIndex.leaveOrdered id
  return some id

/-- Stores a status that was moved. -/
def settling (move : Move) (id : EntryId) : Procedure MessageIndex (Option EntryId) := do
  MessageIndex.persistStatus id
  if move = .finish then leaving id else return some id

/-- Moves a status that is the expected one. -/
def moving (move : Move) (id : EntryId) : Procedure MessageIndex (Option EntryId) := do
  if ← MessageIndex.compareAndSet id move.source move.target then settling move id
  else return none

/-- What a client has left to do at a stage, if no other client disturbs it. -/
def rest : IndexStage → Procedure MessageIndex (Option EntryId)
  | .notePending d => (IndexCall.push d).procedure
  | .checkLive d => do
    if (← memory).live.contains d.uuid then
      MessageIndex.withdraw d.uuid
      return none
    return some (← MessageIndex.push d.uuid d.offset d.length d.kind)
  | .refuse uuid => do
    MessageIndex.withdraw uuid
    return none
  | .takePosition d => return some (← MessageIndex.push d.uuid d.offset d.length d.kind)
  | .writeRecord e id => entering e id do
    MessageIndex.writeRecord e.toRecord e.position
    MessageIndex.raiseCount (e.position + 1)
    MessageIndex.enterLive e.uuid id
    MessageIndex.enterOrdered e.position id
  | .raiseCount e id => entering e id do
    MessageIndex.raiseCount (e.position + 1)
    MessageIndex.enterLive e.uuid id
    MessageIndex.enterOrdered e.position id
  | .enterLive e id => entering e id do
    MessageIndex.enterLive e.uuid id
    MessageIndex.enterOrdered e.position id
  | .enterOrdered e id => entering e id (MessageIndex.enterOrdered e.position id)
  | .withdraw uuid answer => do
    MessageIndex.withdraw uuid
    return some (← ofExcept answer)
  | .lookUp move uuid => move.procedure uuid
  | .checkStatus move id => do
    if ((← memory).entry id).status.isLive then moving move id else return none
  | .setStatus move id => moving move id
  | .persist move id => settling move id
  | .leaveLive id => leaving id
  | .leaveOrdered id => do
    MessageIndex.leaveOrdered id
    return some id
  | .listOrdered => MessageIndex.pop
  | .takeFirst ids => MessageIndex.takeFirst ids
  | .ended answer => ofExcept answer

theorem rest_start (call : IndexCall) : (start call).rest = call.procedure := by
  cases call <;> rfl

/-- A part of entering a message that may fail, and the rest of it. -/
private theorem rest_guarded (e : Entry) (id : EntryId) (p q : Procedure MessageIndex Unit)
    {next : IndexStage} (hnext : next.rest = entering e id q) :
    entering e id (do p; q) = guarded e.uuid p next >>= rest := by
  funext s
  simp only [entering, guarded, tryFinally, MonadFinally.tryFinally', bind, EStateM.bind,
    tryCatch_apply, pure, EStateM.pure, Functor.map, EStateM.map]
  cases p s with
  | ok _ t =>
    simp only [hnext, entering, tryFinally, MonadFinally.tryFinally', bind, EStateM.bind, pure,
      EStateM.pure, Functor.map, EStateM.map]
  | error fault t => rfl

private theorem publish_eq (d : Draft) :
    MessageIndex.publish d.uuid d.offset d.length d.kind = do
      let position ← MessageIndex.takePosition
      let id ← MessageIndex.addEntry (d.entry position)
      MessageIndex.writeRecord (d.entry position).toRecord position
      MessageIndex.raiseCount (position + 1)
      MessageIndex.enterLive d.uuid id
      MessageIndex.enterOrdered position id
      return id := rfl

/-- Each move is a transition, after which a finished message leaves the indexes. -/
private theorem procedure_eq (move : Move) (uuid : Uuid) :
    move.procedure uuid
      = MessageIndex.transition uuid move.source move.target >>= fun moved =>
        match moved with
        | none => return none
        | some id => if move = .finish then leaving id else return some id := by
  cases move with
  | lock => exact (bind_pure _).symm.trans (bind_congr fun moved => by cases moved <;> rfl)
  | rollback => exact (bind_pure _).symm.trans (bind_congr fun moved => by cases moved <;> rfl)
  | finish => exact bind_congr fun moved => by cases moved <;> rfl

private theorem memory_bind {σ α : Type} (f : σ → Procedure σ α) (s : Session σ) :
    (memory >>= f) s = f s.memory s := rfl

/-- A message is found if it is known by its UUID and its status is that of a message in the
queue. -/
private theorem rest_lookUp (move : Move) (uuid : Uuid) :
    (lookUp move uuid).rest = (lookUp move uuid).advance >>= rest := by
  funext s
  simp only [rest, procedure_eq, MessageIndex.transition, MessageIndex.find?, advance, bind_assoc,
    memory_bind]
  cases s.memory.live[uuid]? with
  | none => rfl
  | some id =>
    cases hlive : (s.memory.entry id).status.isLive with
    | true =>
      simp only [Option.filter_some, hlive, if_true, pure_bind, rest, memory_bind, moving,
        bind_assoc]
      refine congrFun (bind_congr fun moved => ?_) s
      cases moved with
      | false => rfl
      | true => simp only [settling, if_true, bind_assoc, pure_bind]
    | false =>
      simp only [Option.filter_some, hlive, Bool.false_eq_true, if_false, pure_bind, rest,
        memory_bind]

/-- What is left to do is the step of the stage, and then what is left to do after it. -/
theorem rest_advance (k : IndexStage) : k.rest = k.advance >>= rest := by
  cases k with
  | notePending d =>
    simp only [rest, advance, IndexCall.procedure, MessageIndex.reserve, bind_assoc]
    refine bind_congr fun noted => ?_
    cases noted
    · rfl
    · simp only [bind_assoc, Bool.not_true, Bool.false_eq_true, ↓reduceIte, pure_bind, rest]
      refine bind_congr fun m => ?_
      split <;> rfl
  | checkLive d =>
    simp only [rest, advance, bind_assoc]
    refine bind_congr fun m => ?_
    split <;> rfl
  | refuse uuid => rfl
  | takePosition d =>
    funext s
    simp only [rest, advance, entering, bind_assoc, pure_bind, MessageIndex.push,
      publish_eq]
    rfl
  | writeRecord e id => exact rest_guarded e id _ _ rfl
  | raiseCount e id => exact rest_guarded e id _ _ rfl
  | enterLive e id => rfl
  | enterOrdered e id => rfl
  | withdraw uuid answer => cases answer <;> rfl
  | lookUp move uuid => exact rest_lookUp move uuid
  | checkStatus move id =>
    simp only [rest, advance, bind_assoc]
    refine bind_congr fun m => ?_
    split <;> rfl
  | setStatus move id =>
    simp only [rest, advance, moving, bind_assoc]
    refine bind_congr fun moved => ?_
    cases moved <;> rfl
  | persist move id =>
    simp only [rest, advance, settling, bind_assoc]
    refine bind_congr fun _ => ?_
    split <;> rfl
  | leaveLive id =>
    simp only [rest, advance, leaving, bind_assoc, pure_bind]
  | leaveOrdered id => rfl
  | listOrdered => rfl
  | takeFirst ids =>
    cases ids with
    | nil => rfl
    | cons id rest =>
      simp only [IndexStage.rest, advance, MessageIndex.takeFirst, bind_assoc]
      refine bind_congr fun moved => ?_
      cases moved <;> rfl
  | ended answer => rfl

/-- How far a call is from its end: how many steps it takes at most, once it knows which messages to
look at. -/
def distance : IndexStage → Nat ×ₗ Nat
  | .notePending _ => toLex (0, 9)
  | .checkLive _ => toLex (0, 8)
  | .takePosition _ => toLex (0, 7)
  | .writeRecord _ _ => toLex (0, 6)
  | .raiseCount _ _ => toLex (0, 5)
  | .enterLive _ _ => toLex (0, 4)
  | .enterOrdered _ _ => toLex (0, 3)
  | .withdraw _ _ => toLex (0, 2)
  | .refuse _ => toLex (0, 1)
  | .lookUp _ _ => toLex (0, 6)
  | .checkStatus _ _ => toLex (0, 5)
  | .setStatus _ _ => toLex (0, 4)
  | .persist _ _ => toLex (0, 3)
  | .leaveLive _ => toLex (0, 2)
  | .leaveOrdered _ => toLex (0, 1)
  | .listOrdered => toLex (1, 0)
  | .takeFirst ids => toLex (0, 4 + ids.length)
  | .ended _ => toLex (0, 0)

theorem Does.distance_lt {k k' : IndexStage} {m m' : MessageIndex} (h : Does k m k' m') :
    (∃ answer, k = .ended answer) ∨ k'.distance < k.distance := by
  cases h with
  | call | stay => exact .inl ⟨_, rfl⟩
  | persist =>
    refine .inr ?_
    split <;> simp [distance, Prod.Lex.toLex_lt_toLex]
  | takeOne => exact .inr (by simp [distance, Prod.Lex.toLex_lt_toLex]; omega)
  | _ => exact .inr (by simp [distance, Prod.Lex.toLex_lt_toLex])

/-- A client that no other one disturbs makes its call to the end, and the call answers and leaves
the index as the procedure does. -/
theorem exists_run_alone (w : Crowd MessageIndex IndexStage) (client : Nat) :
    ∃ trace u, MessageIndex.protocol.Run w trace u ∧ (∀ e ∈ trace, e.client = client)
      ∧ u.stage client = .ended ((w.stage client).rest.outcome w.session).1
      ∧ u.session = ((w.stage client).rest.outcome w.session).2 :=
  Protocol.exists_run_alone distance rest_advance (fun _ => rfl) (fun _ => rfl)
    (fun k _ => (advance_does k).mono (fun _ _ h => h.distance_lt) fun _ _ _ => trivial) w client

end IndexStage

end PagedQueue
