import PagedQueue.Proofs.ClientRuns
import PagedQueue.Proofs.PlanSteps
import PagedQueue.Proofs.PushAccesses

/-!
# Clients that push at once

While any number of clients push, the queue keeps to a plan at every moment: each client knows of
the plan what its next step needs (`PushStage.Fits`), and what the others do does not change that
(`Fits.follows`). No two clients write one record (`Pushing.apart`). A step keeps to the plan, or
puts one thing more into it (`Pushing.take`).
-/

namespace PagedQueue

open Procedure
open PageStore (Nowhere)
open Record (place size BreaksAt)

namespace PushStage

open Queue (RecordPage)

/-- The position whose record a client writes. -/
def writing? : PushStage → Option Nat
  | .writeRecord e _ _ => some e.position
  | _ => none

/-- A message that was handed to a push and is let in. -/
structure Welcome (sent : Message → Prop) (m : Message) : Prop where
  sent : sent m
  named : m.uuid ≠ Uuid.nil
  short : m.size ≤ Queue.maxPayload

/-- What a client knows of the plan, by its stage. -/
def Fits (sent : Message → Prop) (plan : Plan) (s : Session Queue) : PushStage → Prop
  | .check m => sent m
  | .notePending m | .checkLive m | .reservePlace m => Welcome sent m
  | .writePayload m offset written =>
    Welcome sent m ∧ written ≤ m.size ∧ plan.Placed s m.payload offset written
  | .takePosition m offset => Welcome sent m ∧ plan.Placed s m.payload offset m.size
  | .writeRecord e _ written =>
    (∃ i, plan.items[e.position]? = some i ∧ e = i.toEntry e.position (plan.layout e.position))
      ∧ plan.written e.position = written ∧ (written = size → RecordPage s (place e.position + 35))
  | .raiseCount e _ => e.position < plan.items.length ∧ RecordPage s (place e.position + 35)
  | _ => True

variable {sent : Message → Prop} {plan plan' : Plan} {s t : Session Queue} {own : Option Nat}
  {k : PushStage}

/-- What a client knows stays true while others go on. -/
theorem Fits.follows (h : k.Fits sent plan s) (hf : plan.Follows own s plan' t)
    (hown : ∀ p, own = some p → k.writing? ≠ some p) : k.Fits sent plan' t := by
  cases k with
  | check => exact h
  | notePending => exact h
  | checkLive => exact h
  | reservePlace => exact h
  | writePayload m offset written => exact ⟨h.1, h.2.1, h.2.2.follows hf h.2.1⟩
  | takePosition m offset => exact ⟨h.1, h.2.follows hf (Nat.le_refl _)⟩
  | writeRecord e id written =>
    obtain ⟨⟨i, hp, heq⟩, hwritten, hpage⟩ := h
    obtain ⟨hp', hlayout⟩ := hf.item hp
    refine ⟨⟨i, hp', hlayout.symm ▸ heq⟩, ?_, fun hall => hf.recordPage _ (hpage hall)⟩
    rw [hf.written (Items.lt_length hp) fun heq => hown _ heq rfl]
    exact hwritten
  | raiseCount e id => exact ⟨Nat.lt_of_lt_of_le h.1 hf.length_le, hf.recordPage _ h.2⟩
  | refuse => trivial
  | enterLive => trivial
  | enterOrdered => trivial
  | withdraw => trivial
  | settle => trivial
  | ended => trivial

/-- The position that is written has a message. -/
theorem Fits.lt_length (h : k.Fits sent plan s) {p : Nat} (hp : k.writing? = some p) :
    p < plan.items.length := by
  cases k with
  | writeRecord e id written =>
    cases hp
    obtain ⟨⟨i, hi, -⟩, -⟩ := h
    exact Items.lt_length hi
  | _ => cases hp

end PushStage

open Queue (Mounted Changes recordBytes payloadBytes RecordPage rootOf)
open PushStage (Welcome Fits writing?)

/-- Clients push into a queue that keeps to a plan. -/
structure Plan.Pushing (plan : Plan) (sent : Message → Prop) (w : Crowd Queue PushStage) :
    Prop where
  kept : plan.Kept w.session
  clear : w.session.host.disk.Clear (rootOf w.session.memory.settings)
  pushed : ∀ i ∈ plan.items, ∃ m, sent m ∧ i = Item.ofMessage m
  fits : ∀ client, (w.stage client).Fits sent plan w.session
  apart : w.Apart writing?

namespace Plan.Pushing

variable {plan plan' : Plan} {sent : Message → Prop} {w : Crowd Queue PushStage} {client : Nat}
  {k : PushStage} {t : Session Queue} {own : Option Nat}

/-- One client goes on, and the others keep what they know. -/
theorem put (h : plan.Pushing sent w) (hkept : plan'.Kept t)
    (hclear : t.host.disk.Clear (rootOf t.memory.settings))
    (hpushed : ∀ i ∈ plan'.items, ∃ m, sent m ∧ i = Item.ofMessage m)
    (hf : plan.Follows own w.session plan' t)
    (hown : ∀ p, own = some p → (w.stage client).writing? = some p) (hfits : k.Fits sent plan' t)
    (hwriting : ∀ {p}, k.writing? = some p → (w.stage client).writing? = some p
      ∨ p = plan.items.length) :
    plan'.Pushing sent (w.put client k t) where
  kept := hkept
  clear := hclear
  pushed := hpushed
  fits other := by
    by_cases hne : other = client
    · subst hne
      rwa [Crowd.stage_put_self]
    · rw [Crowd.stage_put_of_ne _ hne]
      refine (h.fits other).follows hf fun p hp hother => hne ?_
      exact h.apart other client p hother (hown p hp)
  apart := h.apart.put fun {p} hp => (hwriting hp).imp_right fun heq other hother => by
    -- the position is new, so no other client writes its record
    have hlt := (h.fits other).lt_length hother
    omega

/-- A client takes a step that shows nowhere. -/
theorem quiet (h : plan.Pushing sent w) (hc : Changes Nowhere Nowhere w.session t)
    (hnext : t.memory.index.next = w.session.memory.index.next)
    (hcount : t.memory.index.count = w.session.memory.index.count)
    (hcursor : t.memory.payloads.cursor = w.session.memory.payloads.cursor)
    (hfits : k.Fits sent plan t) (hwriting : k.writing? = none) :
    ∃ plan' : Plan, plan'.Pushing sent (w.put client k t) := by
  obtain ⟨hkept, hf⟩ := h.kept.quiet hc hnext hcount hcursor
  refine ⟨plan, h.put hkept ?_ h.pushed hf (fun _ hown => by cases hown) hfits fun hp => ?_⟩
  · rw [hc.settings]
    exact hc.clear h.clear
  · rw [hwriting] at hp
    cases hp

/-- The next step leads on. -/
abbrev GoesOn (sent : Message → Prop) (w : Crowd Queue PushStage) (client : Nat)
    (p : Procedure Queue PushStage) : Prop :=
  p.Leads w.session (fun k t => ∃ plan : Plan, plan.Pushing sent (w.put client k t))
    fun fault t => ∃ plan : Plan, plan.Pushing sent (w.put client (.ended (.error fault)) t)

/-- A payload takes its place. -/
theorem reservePlace (h : plan.Pushing sent w) {m : Message} (hm : Welcome sent m) :
    GoesOn sent w client (PushStage.reservePlace m).advance := by
  unfold GoesOn PushStage.advance Queue.onPayloads PayloadLog.reserve
  simp only [leads_bind, leads_within, leads_memory, leads_update, leads_pure]
  have hc := h.kept.mounted.withPayloads
    (l := { w.session.memory.payloads with
      cursor := w.session.memory.payloads.cursor + m.size }) rfl
  obtain ⟨hkept, hf, hplaced⟩ := h.kept.reserve m.payload hc rfl rfl rfl
  exact ⟨_, h.put hkept (hc.clear h.clear) h.pushed hf (fun _ hown => by cases hown)
    ⟨hm, Nat.zero_le _, hplaced⟩ fun hp => by cases hp⟩

/-- Of a payload, what lies in the next page is written; or all of it is. -/
theorem writePayload (h : plan.Pushing sent w)
    (hcursor : w.session.memory.payloads.cursor < 0x8000000000000000) {m : Message}
    {offset written : Nat} (hm : Welcome sent m) (hwritten : written ≤ m.size)
    (hplaced : plan.Placed w.session m.payload offset written) :
    GoesOn sent w client (PushStage.writePayload m offset written).advance := by
  unfold GoesOn PushStage.advance PushStage.guarded
  rw [leads_tryCatch]
  simp only [leads_ite, leads_bind]
  split
  next hshort =>
    have hlength : (m.payload.drop written).length = m.size - written := List.length_drop
    have hstop := hplaced.stop_le
    have hbelow : offset + written + (m.payload.drop written).length ≤ 0x10000000000000000 := by
      rw [hlength]
      unfold Message.size at *
      omega
    have hbytes : m.payload.drop written ≠ [] :=
      List.ne_nil_of_length_pos (by rw [hlength]; omega)
    refine (Queue.writeFirst_payloads h.kept.mounted h.clear _ hbytes hbelow).leads.mono ?_
      fun _ _ => False.elim
    intro count t ht
    obtain ⟨hcount, hc, hspace, hindex, hcursor'⟩ := ht
    have hle : written + count ≤ m.payload.length := by
      have hfirst := PagedFile.firstLength_le w.session.memory.settings.pageSize (offset + written)
        (m.payload.drop written).length
      rw [← hcount, hlength] at hfirst
      unfold Message.size at *
      omega
    -- the bytes that are written are those that are planned
    have hplanned {o : Nat} (ho : InRange (offset + written) count o) :
        payloadBytes t o = plan.payloads o := by
      rw [hspace, hplaced.take_drop_eq hle, ByteSpace.write_read_of_mem _ ho.1 ho.2]
    have hsettled {o : Nat} (ho : payloadBytes w.session o = plan.payloads o) :
        payloadBytes t o = plan.payloads o := by
      by_cases hin : InRange (offset + written) count o
      · exact hplanned hin
      · rw [hc.payloadBytes o hin, ho]
    obtain ⟨hkept, hf⟩ :=
      h.kept.aside hc (by rw [hindex]) (by rw [hindex]) (Nat.le_of_eq hcursor'.symm)
      fun o _ => hsettled
    refine ⟨plan, h.put hkept ?_ h.pushed hf (fun _ hown => by cases hown) ⟨hm, hle, ?_⟩
      fun hp => by cases hp⟩
    · rw [hc.settings]
      exact hc.clear h.clear
    · refine ⟨hcursor'.symm ▸ hplaced.stop_le, hplaced.planned, fun o ho => ?_⟩
      by_cases hbefore : o < offset + written
      · exact hsettled (hplaced.settled o ⟨ho.1, hbefore⟩)
      · refine hplanned ⟨Nat.le_of_not_lt hbefore, ?_⟩
        have hlt := ho.2
        omega
  next hall =>
    obtain rfl : written = m.size := Nat.le_antisymm hwritten (Nat.le_of_not_lt hall)
    unfold Queue.onPayloads PayloadLog.onFile PagedFile.markWritten
    simp only [leads_within, leads_update, leads_pure]
    have hc := h.kept.mounted.withPayloads (l := { w.session.memory.payloads with
      file := { w.session.memory.payloads.file with
        length := max w.session.memory.payloads.file.length (offset + m.size) } }) rfl
    obtain ⟨-, hf⟩ := h.kept.quiet hc rfl rfl rfl
    exact h.quiet hc rfl rfl rfl ⟨hm, hplaced.follows hf (Nat.le_refl _)⟩ rfl

/-- A message takes a position. -/
theorem takePosition (h : plan.Pushing sent w) {m : Message} {offset : Nat} (hm : Welcome sent m)
    (hplaced : plan.Placed w.session m.payload offset m.size) :
    GoesOn sent w client (PushStage.takePosition m offset).advance := by
  have hnext := h.kept.next_eq
  unfold GoesOn PushStage.advance Queue.onIndex MessageIndex.takePosition MessageIndex.addEntry
  simp only [leads_bind, leads_within, leads_memory, leads_update, leads_pure, Session.memory_part,
    hnext]
  have hc := h.kept.mounted.withIndex (m := { w.session.memory.index with
    next := plan.items.length + 1
    entries := w.session.memory.index.entries.push
      (PushStage.entryOf m offset plan.items.length) }) rfl
  obtain ⟨hkept, hf⟩ := h.kept.enter (i := .ofMessage m) hc hplaced hm.named hm.short
    (congrArg (· + 1) hnext.symm) rfl rfl rfl
  refine ⟨_, h.put hkept (hc.clear h.clear) ?_ hf (fun _ hown => by cases hown)
    ⟨⟨.ofMessage m, ?_, ?_⟩, ?_, fun hall => by cases hall⟩ fun hp =>
    .inr (Option.some.inj hp).symm⟩
  · intro i hi
    rcases List.mem_append.mp hi with hold | hlast
    · exact h.pushed i hold
    · exact ⟨m, hm.sent, List.mem_singleton.mp hlast⟩
  · exact getElem?_concat_eq_some_iff.mpr (.inr ⟨rfl, rfl⟩)
  · exact congrArg (Item.toEntry (.ofMessage m) plan.items.length)
      (Function.update_self plan.items.length offset plan.layout).symm
  · exact Function.update_self ..

/-- Of a record, what lies in the next page is written; or all of it is. -/
theorem writeRecord (h : plan.Pushing sent w) (hroom : plan.items.length < 0x80000000) {e : Entry}
    {id : EntryId} {written : Nat} (hstage : w.stage client = .writeRecord e id written) :
    GoesOn sent w client (PushStage.writeRecord e id written).advance := by
  have hfits := h.fits client
  rw [hstage] at hfits
  obtain ⟨⟨i, hp, he⟩, rfl, hpage⟩ := hfits
  have hlt := Items.lt_length hp
  have hbreaks := h.kept.breaks hlt
  unfold GoesOn PushStage.advance PushStage.guarded
  rw [leads_tryCatch]
  simp only [leads_ite, leads_bind]
  split
  next hshort =>
    have hlength : (e.toRecord.encode.drop (plan.written e.position)).length
        = size - plan.written e.position := by
      rw [List.length_drop, Record.length_encode]
    have hbelow : place e.position + plan.written e.position
        + (e.toRecord.encode.drop (plan.written e.position)).length ≤ 0x10000000000000000 := by
      rw [hlength]
      simp only [place, Record.countSize, size] at *
      omega
    have hbytes : e.toRecord.encode.drop (plan.written e.position) ≠ [] :=
      List.ne_nil_of_length_pos (by rw [hlength]; omega)
    refine (Queue.writeFirst_records h.kept.mounted h.clear _ hbytes hbelow).leads.mono ?_
      fun _ _ => False.elim
    intro count t ht
    obtain ⟨hcount, hc, hspace, hpages, hindex, hpayloads⟩ := ht
    rw [hlength] at hcount
    have hle := PagedFile.firstLength_le w.session.memory.settings.pageSize
      (place e.position + plan.written e.position) (size - plan.written e.position)
    rw [← hcount] at hle
    have hbreaks' : BreaksAt w.session.memory.settings.pageSize e.position
        (plan.written e.position + count) := by
      by_cases hall : plan.written e.position + count = size
      · exact .inr (.inl hall)
      · refine .inr (.inr ⟨by omega, ?_⟩)
        rw [← Nat.add_assoc, hcount]
        exact PagedFile.dvd_of_firstLength_lt h.kept.mounted.pageSize_pos (by omega)
    obtain ⟨hkept, hf⟩ := h.kept.writeRecord hp hc (by omega) hbreaks'
      (by rw [← he]; exact hspace) (by rw [hindex]) (by rw [hindex]) hpayloads rfl
    refine ⟨_, h.put hkept ?_ h.pushed hf ?_ ⟨⟨i, hp, he⟩, Function.update_self .., fun hall => ?_⟩
      fun hq => .inl (hstage ▸ hq)⟩
    · rw [hc.settings]
      exact hc.clear h.clear
    · intro p hown
      rw [hstage]
      exact hown
    · have hsize : size = 36 := rfl
      exact hpages _ ⟨by omega, by omega⟩
  next hall =>
    have hwritten : plan.written e.position = size :=
      Nat.le_antisymm (Record.breaksAt_le hbreaks) (Nat.le_of_not_lt hall)
    unfold Queue.onIndex MessageIndex.onFile PagedFile.markWritten
    simp only [leads_within, leads_update, leads_pure]
    have hc := h.kept.mounted.withIndex (m := { w.session.memory.index with
      file := { w.session.memory.index.file with
        length := max w.session.memory.index.file.length
          (place e.position + plan.written e.position) } }) rfl
    exact h.quiet hc rfl rfl rfl ⟨hlt, hc.recordPage _ (hpage hwritten)⟩ rfl

/-- The count is raised over a record that is complete. -/
theorem raiseCount (h : plan.Pushing sent w) {e : Entry} {id : EntryId}
    (hlt : e.position < plan.items.length) (hpage : RecordPage w.session (place e.position + 35)) :
    GoesOn sent w client (PushStage.raiseCount e id).advance := by
  unfold GoesOn PushStage.advance PushStage.guarded
  rw [leads_tryCatch]
  simp only [leads_bind]
  refine (Queue.raiseCount_ensures h.kept.mounted h.clear _).leads.mono ?_ fun _ _ => False.elim
  intro _ t ht
  obtain ⟨hc, hpayloads, ⟨-, rfl⟩ | ⟨-, hindex, hspace⟩⟩ := ht
  · exact h.quiet h.kept.mounted.refl rfl rfl rfl trivial rfl
  · have hlast : place (e.position + 1) ≤ place e.position + 35 + 1 := by
      simp only [place, size]
      omega
    obtain ⟨hkept, hf⟩ := h.kept.raise hc hspace hlt hlast hpage (by rw [hindex]) (by rw [hindex])
      hpayloads
    refine ⟨_, h.put hkept ?_ h.pushed hf (fun _ hown => by cases hown) trivial
      fun hp => by cases hp⟩
    rw [hc.settings]
    exact hc.clear h.clear

/-- Whatever step a client takes, the queue keeps to a plan. -/
theorem take (h : plan.Pushing sent w) (hroom : plan.items.length < 0x80000000)
    (hcursor : w.session.memory.payloads.cursor < 0x8000000000000000) (client : Nat) :
    GoesOn sent w client (w.stage client).advance := by
  have hfits := h.fits client
  have hmounted := h.kept.mounted
  have hstay {k : PushStage} (hk : k.Fits sent plan w.session) (hwriting : k.writing? = none) :
      ∃ plan : Plan, plan.Pushing sent (w.put client k w.session) :=
    h.quiet hmounted.refl rfl rfl rfl hk hwriting
  -- what is noted in memory only is no part of the plan
  have hnoted {k : PushStage} {m : MessageIndex} (hfile : m.file = w.session.memory.index.file)
      (hnext : m.next = w.session.memory.index.next)
      (hcount : m.count = w.session.memory.index.count)
      (hk : ∀ t, plan.Follows none w.session plan t → k.Fits sent plan t)
        (hwriting : k.writing? = none) :
      ∃ plan : Plan, plan.Pushing sent
        (w.put client k ⟨w.session.host, { w.session.memory with index := m }⟩) := by
    have hc := hmounted.withIndex (congrArg PagedFile.store hfile)
    exact h.quiet hc hnext hcount rfl (hk _ (h.kept.quiet hc hnext hcount rfl).2) hwriting
  cases hstage : w.stage client with
  | check m =>
    rw [hstage] at hfits
    unfold GoesOn PushStage.advance
    simp only [leads_bind]
    rw [Queue.leads_ensureOpen hmounted.isOpen]
    simp only [leads_ite, leads_bind, leads_throw, leads_pure]
    split
    next => exact hstay trivial rfl
    next hnamed =>
      split
      next => exact hstay trivial rfl
      next hshort =>
        exact hstay ⟨hfits, mt Uuid.isNil_iff.mpr hnamed, Nat.le_of_not_lt hshort⟩ rfl
  | notePending m =>
    rw [hstage] at hfits
    unfold GoesOn PushStage.advance Queue.onIndex MessageIndex.notePending
    simp only [leads_bind, leads_within, leads_memory, leads_ite, leads_update, leads_pure]
    split
    next => exact hstay trivial rfl
    next => exact hnoted rfl rfl rfl (fun _ _ => hfits) rfl
  | checkLive m =>
    rw [hstage] at hfits
    unfold GoesOn PushStage.advance
    simp only [leads_bind, leads_memory, leads_ite, leads_pure]
    split
    next => exact hstay trivial rfl
    next => exact hstay hfits rfl
  | refuse uuid => exact hnoted rfl rfl rfl (fun _ _ => trivial) rfl
  | reservePlace m =>
    rw [hstage] at hfits
    exact h.reservePlace hfits
  | writePayload m offset written =>
    rw [hstage] at hfits
    exact h.writePayload hcursor hfits.1 hfits.2.1 hfits.2.2
  | takePosition m offset =>
    rw [hstage] at hfits
    exact h.takePosition hfits.1 hfits.2
  | writeRecord e id written => exact h.writeRecord hroom hstage
  | raiseCount e id =>
    rw [hstage] at hfits
    exact h.raiseCount hfits.1 hfits.2
  | enterLive e id => exact hnoted rfl rfl rfl (fun _ _ => trivial) rfl
  | enterOrdered e id => exact hnoted rfl rfl rfl (fun _ _ => trivial) rfl
  | withdraw uuid answer =>
    cases answer with
    | ok => exact hnoted rfl rfl rfl (fun _ _ => trivial) rfl
    | error => exact hnoted rfl rfl rfl (fun _ _ => trivial) rfl
  | settle =>
    unfold GoesOn PushStage.advance
    simp only [leads_bind]
    refine (Queue.afterChange_quiet hmounted.recordCoherent hmounted.payloadCoherent).leads.mono ?_
      fun _ _ => False.elim
    intro _ t ht
    have hindex := ht.index
    exact h.quiet (hmounted.quiet ht) (by rw [hindex]) (by rw [hindex])
      (by rw [ht.payloads]) trivial rfl
  | ended answer => exact hstay trivial rfl

end Plan.Pushing

end PagedQueue
