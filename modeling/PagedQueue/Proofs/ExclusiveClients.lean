import PagedQueue.Proofs.IndexClients
import PagedQueue.Proofs.IndexedEntries

/-!
# Clients that share an index

Messages are taken by one client at a time, and a UUID has one message in the queue at most, in
whatever order the steps of the clients follow one another (`exclusive_clients`). A run is cut at
the two events in question: what the first one has brought about holds up to the second one, unless
a third one lies between them.
-/

namespace PagedQueue

open Procedure IndexStage

variable {w u : Crowd MessageIndex IndexStage} {e : Event IndexStage}
  {trace : List (Event IndexStage)} {s : Session MessageIndex}

/-! ## Runs -/

/-- Whatever clients do, an entry keeps its position. -/
theorem position_of_run (h : MessageIndex.protocol.Run w trace u) {id : EntryId}
    (hid : id < w.session.memory.entries.size) :
    id < u.session.memory.entries.size
      ∧ (u.session.memory.entry id).position = (w.session.memory.entry id).position := by
  refine h.keeps (fun v => id < v.session.memory.entries.size
    ∧ (v.session.memory.entry id).position = (w.session.memory.entry id).position) ⟨hid, rfl⟩ ?_
  intro v e v' hstep _ hkept
  obtain ⟨-, -, hdoes⟩ := Does.of_step hstep
  exact ⟨Nat.lt_of_lt_of_le hkept.1 hdoes.spares.size_le,
    (hdoes.spares.position hkept.1).trans hkept.2⟩

/-- A taken message stays taken or is finished as long as it is not given back. -/
theorem locked_or_deleted_of_run (h : MessageIndex.protocol.Run w trace u) {id : EntryId}
    (hlocked : (w.session.memory.entry id).status = .locked)
    (hkeep : ∀ e ∈ trace, ¬ e.Makes .rollback id) :
    (u.session.memory.entry id).status = .locked
    ∨ (u.session.memory.entry id).status = .deleted := by
  refine h.keeps (fun v => (v.session.memory.entry id).status = .locked
    ∨ (v.session.memory.entry id).status = .deleted) (.inl hlocked) ?_
  intro v e v' hstep hmem hkept
  obtain ⟨-, -, hdoes⟩ := Does.of_step hstep
  rcases hdoes.status id with ⟨move, hmakes, hsource, htarget⟩ | ⟨-, hsame⟩
  · cases move with
    | lock => rw [hsource] at hkept; simp [Move.source] at hkept
    | rollback => exact absurd hmakes (hkeep e hmem)
    | finish => exact .inr htarget
  · rw [hsame (MessageIndex.lt_size_of_status (by rcases hkept with h | h <;> rw [h] <;> decide))]
    exact hkept

/-- A finished message stays finished, and its status is never moved again. -/
theorem deleted_of_run (h : MessageIndex.protocol.Run w trace u) {id : EntryId}
    (hdeleted : (w.session.memory.entry id).status = .deleted) :
    (u.session.memory.entry id).status = .deleted := by
  refine h.keeps (fun v => (v.session.memory.entry id).status = .deleted) hdeleted ?_
  intro v e v' hstep _ hkept
  obtain ⟨-, -, hdoes⟩ := Does.of_step hstep
  exact hdoes.spares.deleted hkept

/-- What was true of the status of an entry that a step moved. -/
theorem status_of_makes (h : MessageIndex.protocol.Step w e u) {move : Move} {id : EntryId}
    (hmakes : e.Makes move id) : (w.session.memory.entry id).status = move.source
      ∧ (u.session.memory.entry id).status = move.target := by
  obtain ⟨-, -, hdoes⟩ := Does.of_step h
  rcases hdoes.status id with ⟨other, hother, hstatus⟩ | ⟨hnone, -⟩
  · cases hmakes.2.symm.trans hother.2
    exact hstatus
  · exact absurd hmakes (hnone move)

/-! ## Starting -/

namespace MessageIndex

/-- An index that was just started or recovered. -/
def Initialized (s : Session MessageIndex) : Prop :=
  ∃ before, startEmpty before = .ok () s ∨ ∃ tally, recover before = .ok tally s

theorem Initialized.indexed (h : Initialized s) : s.memory.Indexed := by
  obtain ⟨before, h | ⟨tally, h⟩⟩ := h
  · have hleads := startEmpty_keyed PagedFile.lasting_true (s := before) trivial
    unfold Leads at hleads
    rw [h] at hleads
    exact hleads.2
  · have hleads := recover_keyed PagedFile.lasting_true (s := before) trivial
    unfold Leads at hleads
    rw [h] at hleads
    exact hleads.2

end MessageIndex

/-- The message was in the queue at first, or a client has made it known. -/
def MessageIndex.Shown (s : Session MessageIndex) (trace : List (Event IndexStage)) (id : EntryId) :
    Prop :=
  (∃ uuid : Uuid, s.memory.live[uuid]? = some id) ∨ ∃ e ∈ trace, e.Shows id

theorem MessageIndex.shown_concat : MessageIndex.Shown s (trace ++ [e])
    = fun id => MessageIndex.Shown s trace id ∨ e.Shows id := by
  funext id
  simp [MessageIndex.Shown, or_and_right, exists_or, or_assoc]

/-- All that clients do to an index that was just initialized is orderly. -/
theorem orderly_of_run (hs : MessageIndex.Initialized s)
    (h : MessageIndex.protocol.Run (MessageIndex.unused s) trace w) :
    w.Orderly (MessageIndex.Shown s trace) := by
  induction h with
  | rest =>
    refine ⟨fun _ => ⟨nofun, nofun, nofun, nofun⟩, nofun, ?_⟩
    have hlive {id : EntryId} (hid : MessageIndex.Shown s [] id) :
        ∃ uuid : Uuid, s.memory.live[uuid]? = some id := by
      simpa [MessageIndex.Shown] using hid
    refine ⟨fun hid => ?_, fun hid _ => ?_⟩
    · obtain ⟨uuid, hid⟩ := hlive hid
      exact (hs.indexed uuid _ hid).1
    · obtain ⟨uuid, hid⟩ := hlive hid
      show s.memory.live[(s.memory.entry _).uuid]? = _
      rw [(hs.indexed uuid _ hid).2]
      exact hid
  | @step trace v w e _ hstep ih =>
    rw [MessageIndex.shown_concat]
    exact ih.step (Does.of_step hstep)

theorem entered_of_run (h : MessageIndex.protocol.Run (MessageIndex.unused s) trace w) :
    w.Entered s.memory trace := by
  induction h with
  | rest => exact ⟨.refl _, nofun, nofun, nofun⟩
  | step _ hstep ih => exact ih.step (Does.of_step hstep)

/-- Any number of clients share an index that was just initialized, and their steps follow one
another in any order. Between two moves by which a message is taken lies one by which it was given
back; a message that is finished is neither finished nor taken again; of the messages that were made
known no two in the queue have the same UUID; and no two pushes that succeed get the same
position. -/
theorem exclusive_clients (hs : MessageIndex.Initialized s)
    (hrun : MessageIndex.protocol.Run (MessageIndex.unused s) trace w) :
    (∀ id before e between e' after, trace = before ++ e :: (between ++ e' :: after) →
      e.Makes .lock id → e'.Makes .lock id → ∃ x ∈ between, x.Makes .rollback id)
    ∧ (∀ id before e after, trace = before ++ e :: after → e.Makes .finish id →
      ∀ x ∈ after, ¬ x.Makes .finish id ∧ ¬ x.Makes .lock id)
    ∧ (∀ id id', MessageIndex.Shown s trace id → MessageIndex.Shown s trace id' →
      (w.session.memory.entry id).status.isLive = true →
      (w.session.memory.entry id').status.isLive = true →
      (w.session.memory.entry id).uuid = (w.session.memory.entry id').uuid → id = id')
    ∧ ∀ id id' before e between e' after, trace = before ++ e :: (between ++ e' :: after) →
      e.Pushes id → e'.Pushes id' →
      (w.session.memory.entry id).position ≠ (w.session.memory.entry id').position := by
  refine ⟨?_, ?_, ?_, ?_⟩
  · intro id before e between e' after htrace hlock hlock'
    by_contra hnone
    rw [htrace] at hrun
    obtain ⟨v, v', -, hstep, hrest⟩ := hrun.split
    obtain ⟨u, u', hbetween, hstep', -⟩ := hrest.split
    have hstatus := locked_or_deleted_of_run hbetween (status_of_makes hstep hlock).2
      fun x hx hmakes => hnone ⟨x, hx, hmakes⟩
    rw [(status_of_makes hstep' hlock').1] at hstatus
    simp [Move.source] at hstatus
  · intro id before e after htrace hfinish x hx
    obtain ⟨between, last, rfl⟩ := List.append_of_mem hx
    rw [htrace] at hrun
    obtain ⟨v, v', -, hstep, hrest⟩ := hrun.split
    obtain ⟨u, u', hbetween, hstep', -⟩ := hrest.split
    have hdeleted := deleted_of_run hbetween (status_of_makes hstep hfinish).2
    have hnot (move : Move) (hmakes : x.Makes move id) : False := by
      rw [(status_of_makes hstep' hmakes).1] at hdeleted
      cases move <;> cases hdeleted
    exact ⟨hnot .finish, hnot .lock⟩
  · intro id id' hid hid' hlive hlive' huuid
    have hknows := (orderly_of_run hs hrun).knows
    have hknown := hknows.live hid hlive
    rw [huuid, hknows.live hid' hlive'] at hknown
    exact (Option.some.inj hknown).symm
  · intro id id' before e between e' after htrace hpushes hpushes' hposition
    rw [htrace, ← List.cons_append, ← List.append_assoc] at hrun
    obtain ⟨v, v', hbefore, hstep, hafter⟩ := hrun.split
    have hentered := entered_of_run hbefore
    obtain ⟨uuid, hwithdraw⟩ := hpushes'
    obtain ⟨hstage, hv', hdoes⟩ := Does.of_step hstep
    have howned : (v.stage e'.client).owned? = some id' := by
      rw [← hstage, hwithdraw]
      rfl
    obtain ⟨hid, hother⟩ := hentered.pushed (by simp) hpushes
    have hid' := hentered.owned howned
    -- the positions are as they were when the second push ended
    have hlast := (Protocol.Run.step .rest hstep).append hafter
    rw [(position_of_run hlast hid.2).2, (position_of_run hlast hid'.2).2] at hposition
    rw [← hentered.numbers.injective hid hid' hposition] at howned
    exact hother _ howned

/-- The entry of a message that was taken in a step. -/
def Event.taken? (e : Event IndexStage) : Option EntryId :=
  match e.before, e.after with
  | .setStatus .lock id, .persist .lock id' => if id = id' then some id else none
  | .takeFirst (id :: _), .persist .lock id' => if id = id' then some id else none
  | _, _ => none

theorem Event.makes_of_taken? {id : EntryId} (h : e.taken? = some id) : e.Makes .lock id := by
  unfold taken? at h
  split at h
  next first last hbefore hafter =>
    split at h
    next heq =>
      cases h
      exact ⟨.inl hbefore, heq ▸ hafter⟩
    next => cases h
  next first rest last hbefore hafter =>
    split at h
    next heq =>
      cases h
      exact ⟨.inr ⟨rfl, rest, hbefore⟩, heq ▸ hafter⟩
    next => cases h
  next => cases h

/-- An index in a directory that is still empty. -/
def emptyDirectory : Session MessageIndex :=
  ⟨⟨(Change.makeDirectory ["meta"]).apply 0 {}, ⟨fun _ => 0, 0⟩, []⟩,
    { file := { store := {
      directory := ["meta"]
      pageSize := 64
      pageSize_pos := by decide
      lifetime := 0 } } }⟩

theorem startEmpty_emptyDirectory : MessageIndex.startEmpty emptyDirectory
    = .ok () (MessageIndex.startEmpty.outcome emptyDirectory).2 := by
  have hstarted : (MessageIndex.startEmpty.outcome emptyDirectory).1.toOption = some () := by
    decide +kernel
  exact outcome_ok_iff.mp (Prod.ext (ok_of_toOption hstarted) rfl)

theorem initialized_emptyDirectory :
    MessageIndex.Initialized (MessageIndex.startEmpty.outcome emptyDirectory).2 :=
  ⟨emptyDirectory, .inl startEmpty_emptyDirectory⟩

/-- Two clients push the same message. The one whose push was refused takes the message, and the
other one gives it back and takes it. -/
def twoClients : List (Nat × IndexCall) :=
  let push := IndexCall.push ⟨⟨1⟩, 0, 0, .text⟩
  List.replicate 4 (0, push) ++ List.replicate 2 (1, push) ++ List.replicate 5 (0, push)
    ++ List.replicate 4 (1, .pop) ++ List.replicate 5 (0, .move .rollback ⟨1⟩)
    ++ List.replicate 5 (0, .move .lock ⟨1⟩)

open MessageIndex in
theorem exclusive_clients_twoClients :
    ∃ s : Session MessageIndex, Initialized s
      ∧ protocol.Run (unused s) (protocol.perform (unused s) twoClients).1
        (protocol.perform (unused s) twoClients).2
      ∧ ∃ x ∈ (protocol.perform (unused s) twoClients).1, x.Makes .rollback 0 := by
  refine ⟨_, initialized_emptyDirectory, Protocol.run_perform _ _ _, ?_⟩
  have htaken : (protocol.perform (unused (startEmpty.outcome emptyDirectory).2)
      twoClients).1.filterMap Event.taken? = [0, 0] := by decide +kernel
  obtain ⟨before, e, rest, htrace, -, he, hrest⟩ := List.filterMap_eq_cons_iff.mp htaken
  obtain ⟨between, e', after, rfl, -, he', -⟩ := List.filterMap_eq_cons_iff.mp hrest
  obtain ⟨x, hx, hmakes⟩ := (exclusive_clients initialized_emptyDirectory
    (Protocol.run_perform _ _ twoClients)).1 0 before e between e' after htrace
    (Event.makes_of_taken? he) (Event.makes_of_taken? he')
  refine ⟨x, ?_, hmakes⟩
  rw [htrace]
  simp [hx]

end PagedQueue
