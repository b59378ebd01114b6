import PagedQueue.Proofs.PlanCalls

/-!
# Queues that serve a plan

A push that fails uses up a position, or only the place of its payload. Mostly its record is never
completed, but it is whole if the push failed at the count. So which messages were entered cannot be
read off the records: a queue serves a plan if its index leads to the messages at the positions
`entered` and to no other ones (`Plan.Serves`); in the list of what is in the queue a message that
could not be put in counts as one that is finished (`Plan.booked`). The others were lost, each with
the fault of its push.

Whatever is done with the queue, it serves a plan afterwards (`Serves.put`, `Serves.broken`,
`Serves.run_leads`). The pages that its messages need are there, so as long as none is refused no
call but a push can fail.
-/

namespace PagedQueue

open Procedure
open PageStore (Nowhere)
open Record (place size countSize statusOffset)
open MessageIndex (Holds Stands Unreadable)

/-! ## The message that a call moves -/

theorem Move.isLive_source (k : Move) : k.source.isLive = true := by
  cases k <;> rfl

theorem Move.target_ne_vacant (k : Move) : k.target ≠ .vacant := by
  cases k <;> decide

namespace StatusCall

variable {m : MessageIndex} {items : Items} {layout : Nat → Nat} {p : Nat} {i : Item} {id : EntryId}
  {c : StatusCall}

/-- Whether a message is one that the call moves. -/
def wants : StatusCall → Item → Bool
  | .move k uuid, i => i.status = k.source ∧ i.uuid = uuid
  | .pop, i => i.status = .new

theorem isLive_of_wants (h : c.wants i = true) : i.status.isLive = true := by
  cases c with
  | pop =>
    have hstatus : i.status = .new := of_decide_eq_true h
    rw [hstatus]
    rfl
  | move k uuid =>
    have hand : i.status = k.source ∧ i.uuid = uuid := of_decide_eq_true h
    rw [hand.1]
    exact k.isLive_source

/-- The call selects the first message that it wants, if there is one. -/
theorem selected?_cases (h : Holds m (items.held layout)) (hwell : items.WellFormed)
    (c : StatusCall) :
    (∃ p i id, items.findIdx? c.wants = some p ∧ c.selected? m = some id
      ∧ Stands m items layout p i id)
    ∨ items.findIdx? c.wants = none ∧ c.selected? m = none := by
  cases c with
  | pop =>
    rcases h.oldestNew?_cases with ⟨p, i, id, hp, hid, -, hstands⟩ | hnone
    · exact .inl ⟨p, i, id, hp, hid, hstands⟩
    · exact .inr hnone
  | move k uuid =>
    have hwanted : items.at? uuid k.source = items.findIdx? (wants (.move k uuid)) :=
      hwell.at?_eq_findIdx? k.isLive_source
    have hselected : selected? m (.move k uuid)
        = (m.find? uuid).filter fun id => (m.entry id).status = k.source := rfl
    rw [← hwanted, Items.at?, hselected]
    rcases h.find?_cases hwell uuid with ⟨p, i, id, hp, hid, -, hstands⟩ | ⟨hnone, hnone'⟩
    · have hstatus : (m.entry id).status = i.status := by
        rw [hstands.entry]
        rfl
      rw [hp, hid, Option.filter_some, Option.filter_some, hstands.item, Option.any_some, hstatus]
      by_cases heq : i.status = k.source
      · rw [if_pos (decide_eq_true heq), if_pos (decide_eq_true heq)]
        exact .inl ⟨p, i, id, rfl, rfl, hstands⟩
      · rw [if_neg (by simpa using heq), if_neg (by simpa using heq)]
        exact .inr ⟨rfl, rfl⟩
    · rw [hnone, hnone']
      exact .inr ⟨rfl, rfl⟩

/-- The index has moved the message as the list has. -/
theorem holds_setStatus (h : Holds m (items.held layout)) (hstands : Stands m items layout p i id)
    (hselected : c.selected? m = some id) :
    Holds (c.done m id) ((items.setStatus p c.kind.target).held layout) := by
  have hdone := holds_done h hstands.ordered hselected
  by_cases hfinish : c.kind = .finish
  · have hdead : c.kind.target.isLive = false := by
      rw [hfinish]
      rfl
    rwa [if_pos hfinish, ← Items.held_setStatus_of_dead hdead] at hdone
  · have hlive : c.kind.target.isLive = true := by
      cases hkind : c.kind with
      | finish => exact absurd hkind hfinish
      | lock | rollback => rfl
    rwa [if_neg hfinish, hstands.entry, ← Items.held_setStatus_of_live hstands.item hlive] at hdone

end StatusCall

/-! ## What is in the queue -/

namespace Plan

open Queue (Broken Changes CountPage Put Readable RecordPage PayloadPage payloadBytes recordBytes
  recordDirectory)
open Disk (pagePath)

/-- The messages as they are in the queue: one that was not entered counts as one that is
finished. -/
def booked (plan : Plan) (entered : Nat → Bool) : Items := plan.items.mapIdx fun p i =>
  if entered p then i else { i with status := .deleted }

variable {plan : Plan} {entered entered' : Nat → Bool} {lost : List (Message × Fault)}
  {s t : Session Queue} {m : Message} {p : Nat} {i : Item} {id : EntryId} {offset written : Nat}

theorem getElem?_booked (plan : Plan) (entered : Nat → Bool) (p : Nat) :
    (plan.booked entered)[p]? = plan.items[p]?.map fun i =>
      if entered p then i else { i with status := .deleted } := List.getElem?_mapIdx

theorem length_booked (plan : Plan) (entered : Nat → Bool) :
    (plan.booked entered).length = plan.items.length := List.length_mapIdx

/-- A message that is in the queue is one that was entered. -/
theorem of_booked (hp : (plan.booked entered)[p]? = some i) (hlive : i.status.isLive = true) :
    plan.items[p]? = some i ∧ entered p = true := by
  rw [getElem?_booked, Option.map_eq_some_iff] at hp
  obtain ⟨j, hj, rfl⟩ := hp
  by_cases hentered : entered p = true
  · rw [if_pos hentered]
    exact ⟨hj, hentered⟩
  · rw [if_neg hentered] at hlive
    cases hlive

theorem booked_of_entered (hp : plan.items[p]? = some i) (hentered : entered p = true) :
    (plan.booked entered)[p]? = some i := by
  rw [getElem?_booked, hp, Option.map_some, if_pos hentered]

/-- Of a message that was not entered nothing is in the queue. -/
theorem held_of_not_entered (hentered : entered p = false) :
    (plan.booked entered).held plan.layout p = none := by
  refine Option.eq_none_iff_forall_ne_some.mpr fun e he => ?_
  obtain ⟨i, hp, hlive, -⟩ := Items.held_eq_some_iff.mp he
  rw [(of_booked hp hlive).2] at hentered
  cases hentered

/-- A message that takes the next position is in the queue if it is entered. -/
theorem booked_extend (plan : Plan) (m : Message) (offset written : Nat)
    (hold : ∀ p < plan.items.length, entered' p = entered p) :
    (plan.extend m offset written).booked entered' = plan.booked entered
      ++ [if entered' plan.items.length then .ofMessage m
        else { Item.ofMessage m with status := .deleted }] := by
  refine List.ext_getElem? fun p => ?_
  have hitems : (plan.extend m offset written).items = plan.items ++ [.ofMessage m] := rfl
  rw [getElem?_booked, List.getElem?_append, length_booked, getElem?_booked, hitems,
    List.getElem?_append]
  by_cases hlt : p < plan.items.length
  · simp only [if_pos hlt, hold p hlt]
  · rw [if_neg hlt, if_neg hlt]
    by_cases hp : p = plan.items.length
    · subst hp
      simp
    · have hne : p - plan.items.length ≠ 0 := by omega
      simp [hne]

/-- A message that was entered moves in the queue. -/
theorem booked_setStatus (plan : Plan) (hentered : entered p = true) (status : Status) :
    booked { plan with items := plan.items.setStatus p status } entered
      = (plan.booked entered).setStatus p status := by
  refine List.ext_getElem? fun q => ?_
  rw [Items.getElem?_setStatus, getElem?_booked, getElem?_booked, Items.getElem?_setStatus,
    Option.map_map, Option.map_map]
  refine Option.map_congr fun j _ => ?_
  by_cases hq : p = q
  · subst hq
    simp [hentered]
  · simp [hq]

/-- A message was lost. If its record is whole nevertheless, its push failed at the page of the
count. -/
def Lost (lost : List (Message × Fault)) (countPage : Path) (i : Item) (written : Nat) : Prop :=
  ∃ x ∈ lost, i = .ofMessage x.1 ∧ (written = size → x.2 = .pageMap countPage)

/-- A queue keeps to a plan and serves the messages that were entered, whose records are whole. All
others were lost. -/
structure Serves (plan : Plan) (entered : Nat → Bool) (lost : List (Message × Fault))
    (s : Session Queue) : Prop extends plan.Kept s where
  holds : s.memory.index.Holds ((plan.booked entered).held plan.layout)
  wellFormed : (plan.booked entered).WellFormed
  planned : ∀ {p : Nat}, entered p = true → p < plan.items.length
  whole : ∀ {p : Nat}, entered p = true → plan.written p = size
  covered : ∀ {p : Nat}, entered p = true → p < s.memory.index.count
  last : ∀ {p : Nat}, s.memory.index.count = p + 1 → entered p = true
  lost_of_not_entered : ∀ {p : Nat} {i : Item}, plan.items[p]? = some i → entered p = false →
    Lost lost (pagePath (recordDirectory s.memory.settings) 0) i (plan.written p)
  countPage : CountPage s
  recordPage : ∀ {p : Nat}, entered p = true → ∀ o, InRange (place p) size o → RecordPage s o
  payloadPage : ∀ {p : Nat} {i : Item}, plan.items[p]? = some i →
    ∀ o, InRange (plan.layout p) i.payload.length o → PayloadPage s o
  layout_lt : ∀ p < plan.items.length, plan.layout p < 0x8000000000000000
  length_lt : plan.items.length < 0x80000000

namespace Serves

/-- The records are left alone, and bytes of the payloads are replaced by those that are planned. -/
theorem aside (h : plan.Serves entered lost s) {payloads : Nat → Prop}
    (hc : Changes Nowhere payloads s t) (hindex : t.memory.index = { s.memory.index with
      file := t.memory.index.file, pending := t.memory.index.pending })
    (hcursor : s.memory.payloads.cursor ≤ t.memory.payloads.cursor)
    (hsettled : ∀ o < s.memory.payloads.cursor, payloadBytes s o = plan.payloads o →
      payloadBytes t o = plan.payloads o) : plan.Serves entered lost t := by
  have hcount : t.memory.index.count = s.memory.index.count := by rw [hindex]
  exact {
    toKept := (h.toKept.aside hc (by rw [hindex]) hcount hcursor hsettled).1
    holds := h.holds.congr (by rw [hindex]) (by rw [hindex]) (by rw [hindex])
    wellFormed := h.wellFormed
    planned := h.planned
    whole := h.whole
    covered := hcount ▸ h.covered
    last := hcount ▸ h.last
    lost_of_not_entered := hc.settings ▸ h.lost_of_not_entered
    countPage := fun o ho => hc.recordPage o (h.countPage o ho)
    recordPage := fun hentered o ho => hc.recordPage o (h.recordPage hentered o ho)
    payloadPage := fun hp o ho => hc.payloadPage o (h.payloadPage hp o ho)
    layout_lt := h.layout_lt
    length_lt := h.length_lt }

/-- Nothing on disk counts that is not in its bytes, nor in memory that is not what the index
holds. -/
theorem quiet (h : plan.Serves entered lost s) (hc : Changes Nowhere Nowhere s t)
    (hindex : t.memory.index = { s.memory.index with
      file := t.memory.index.file, pending := t.memory.index.pending })
    (hcursor : t.memory.payloads.cursor = s.memory.payloads.cursor) : plan.Serves entered lost t :=
  h.aside hc hindex (Nat.le_of_eq hcursor.symm) fun o _ ho =>
    (congrFun hc.payloadBytes_eq o).trans ho

/-- What shows nowhere is served as before. -/
theorem of_quiet (h : plan.Serves entered lost s) (hq : Queue.Quiet s t) :
    plan.Serves entered lost t :=
  h.quiet (h.mounted.quiet hq) (by rw [hq.index]) (by rw [hq.payloads])

/-- What is lost stays lost. -/
theorem mono (h : plan.Serves entered lost s) {more : List (Message × Fault)}
    (hmore : ∀ x ∈ lost, x ∈ more) : plan.Serves entered more s :=
  { h with
    lost_of_not_entered := fun hp hentered =>
      (h.lost_of_not_entered hp hentered).imp fun x hand => ⟨hmore x hand.1, hand.2⟩ }

/-! ## Pushes -/

/-- The UUID of a message is known if one in the queue has it. -/
theorem find?_eq_none (h : plan.Serves entered lost s)
    (hnew : s.memory.index.live.contains m.uuid = false) :
    (plan.booked entered).find? m.uuid = none := by
  rw [Items.find?_eq_none_iff]
  intro q j hj hlive huuid
  have hcontains := h.holds.contains_iff.mpr ⟨q, _, Items.held_of_live hj hlive, huuid⟩
  rw [hnew] at hcontains
  cases hcontains

/-- What is served stays served when a message takes the next position, be it entered or not. -/
theorem extend (h : plan.Serves entered lost s) {records payloads : Nat → Prop}
    (hc : Changes records payloads s t) (hkept : (plan.extend m offset written).Kept t)
    (hold : ∀ p < plan.items.length, entered' p = entered p)
    (hplanned : ∀ {p : Nat}, entered' p = true → p < plan.items.length + 1)
    (hholds : t.memory.index.Holds
      (((plan.extend m offset written).booked entered').held (plan.extend m offset written).layout))
    (hwell : ((plan.extend m offset written).booked entered').WellFormed)
    (hcount : s.memory.index.count ≤ t.memory.index.count)
    (hlast : ∀ {p : Nat}, t.memory.index.count = p + 1 → entered' p = true)
    (hentered : entered' plan.items.length = true → written = size
      ∧ plan.items.length < t.memory.index.count
      ∧ ∀ o, InRange (place plan.items.length) size o → RecordPage t o)
    (hlost : entered' plan.items.length = false →
      Lost lost (pagePath (recordDirectory s.memory.settings) 0) (.ofMessage m) written)
    (hpages : ∀ o, InRange offset m.size o → PayloadPage t o)
    (hoffset : offset < 0x8000000000000000) (hroom : plan.items.length < 0x7FFFFFFF) :
    (plan.extend m offset written).Serves entered' lost t := by
  have hlength := plan.length_extend m offset written
  -- a position was entered before, or it is the new one
  have hcases {p : Nat} (hp : entered' p = true) :
      entered p = true ∧ (plan.extend m offset written).written p = plan.written p
        ∨ p = plan.items.length ∧ (plan.extend m offset written).written p = written := by
    rcases Nat.lt_succ_iff_lt_or_eq.mp (hplanned hp) with hlt | rfl
    · exact .inl ⟨(hold p hlt).symm.trans hp, Function.update_of_ne (Nat.ne_of_lt hlt) _ _⟩
    · exact .inr ⟨rfl, Function.update_self ..⟩
  exact {
    toKept := hkept
    holds := hholds
    wellFormed := hwell
    planned := fun hp => hlength.symm ▸ hplanned hp
    whole := fun hp => by
      rcases hcases hp with ⟨hp, hwritten⟩ | ⟨rfl, hwritten⟩
      · exact hwritten.trans (h.whole hp)
      · exact hwritten.trans (hentered hp).1
    covered := fun hp => by
      rcases hcases hp with ⟨hp, -⟩ | ⟨rfl, -⟩
      · exact Nat.lt_of_lt_of_le (h.covered hp) hcount
      · exact (hentered hp).2.1
    last := hlast
    lost_of_not_entered := fun hp hnot => by
      rw [hc.settings]
      rcases extend_cases hp with ⟨hp, -, hwritten⟩ | ⟨rfl, rfl, -, hwritten⟩
      · rw [hwritten]
        exact h.lost_of_not_entered hp ((hold _ (Items.lt_length hp)).symm.trans hnot)
      · rw [hwritten]
        exact hlost hnot
    countPage := fun o ho => hc.recordPage o (h.countPage o ho)
    recordPage := fun hp => by
      rcases hcases hp with ⟨hp, -⟩ | ⟨rfl, -⟩
      · exact fun o ho => hc.recordPage o (h.recordPage hp o ho)
      · exact (hentered hp).2.2
    payloadPage := fun hp o ho => by
      rcases extend_cases hp with ⟨hp, hlayout, -⟩ | ⟨-, rfl, hlayout, -⟩
      · exact hc.payloadPage o (h.payloadPage hp o (hlayout ▸ ho))
      · exact hpages o (hlayout ▸ ho)
    layout_lt := fun p hp => by
      obtain ⟨j, hj⟩ : ∃ j, (plan.extend m offset written).items[p]? = some j :=
        ⟨_, List.getElem?_eq_getElem hp⟩
      rcases extend_cases hj with ⟨hp, hlayout, -⟩ | ⟨-, -, hlayout, -⟩
      · rw [hlayout]
        exact h.layout_lt p (Items.lt_length hp)
      · rw [hlayout]
        exact hoffset
    length_lt := by omega }

section

variable (h : plan.Serves entered lost s) (hroom : s.memory.index.next < 0x7FFFFFFF)
  (hcursor : s.memory.payloads.cursor < 0x8000000000000000) (hnamed : m.uuid ≠ Uuid.nil)
  (hshort : m.size ≤ Queue.maxPayload)
include h hroom hcursor hnamed hshort

/-- A message that is put in is served. -/
theorem put (hnew : s.memory.index.live.contains m.uuid = false) (ht : Put m s t) :
    ∃ (plan' : Plan) (entered' : Nat → Bool), plan'.Serves entered' lost t
      ∧ plan'.booked entered' = plan.booked entered ++ [.ofMessage m] := by
  have hposition := h.next_eq
  have hindex := ht.index_eq
  have hself : Function.update entered plan.items.length true plan.items.length = true :=
    Function.update_self ..
  have hold (p : Nat) (hp : p < plan.items.length) :
      Function.update entered plan.items.length true p = entered p :=
    Function.update_of_ne (Nat.ne_of_lt hp) _ _
  have hbooked : (plan.extend m s.memory.payloads.cursor size).booked
      (Function.update entered plan.items.length true) = plan.booked entered ++ [.ofMessage m] := by
    rw [booked_extend _ _ _ _ hold, if_pos hself]
  have hcount : t.memory.index.count = plan.items.length + 1 := by rw [hindex, hposition]
  have hpages : ∀ o, InRange (place plan.items.length) size o → RecordPage t o := fun o ho =>
    ht.recordPage o (.inl (hposition.symm ▸ ho))
  have hkept : (plan.extend m s.memory.payloads.cursor size).Kept t := by
    refine h.toKept.extend hnamed hshort ht.changes ht.payloadBytes_eq (.of_recordAt ?_)
      (.inr (.inl rfl)) ?_
      ?_ ⟨place plan.items.length + (size - 1), ?_, hpages _ ⟨by omega, by simp [size]⟩⟩ ?_
      ht.cursor_eq
    · rw [ht.recordBytes_eq, ByteSpace.recordAt_write_count, ByteSpace.recordAt_write]
    · rw [ht.recordBytes_eq, ByteSpace.count_write_count, hcount, hposition]
    · exact Nat.le_of_eq (by rw [hcount, hposition])
    · rw [hcount]
      simp only [place, size]
      omega
    · rw [hindex]
  have hentry : s.memory.entryOf m
      = (Item.ofMessage m).toEntry (plan.booked entered).length s.memory.payloads.cursor := by
    rw [length_booked, ← hposition]
    rfl
  have hholds : t.memory.index.Holds (Items.held (plan.booked entered ++ [.ofMessage m])
      (Function.update plan.layout plan.items.length s.memory.payloads.cursor)) := by
    rw [← length_booked plan entered, Items.held_push rfl]
    refine h.holds.enter
      (e := (Item.ofMessage m).toEntry (plan.booked entered).length s.memory.payloads.cursor)
      (Items.held_eq_none (Nat.le_refl _)) rfl (fun q e he huuid => ?_) ?_ ?_ ?_
    · have hcontains := h.holds.contains_iff.mpr ⟨q, e, he, huuid⟩
      rw [show Entry.uuid _ = m.uuid from rfl, hnew] at hcontains
      cases hcontains
    · rw [hindex, hentry]
    · rw [hindex]
      rfl
    · rw [hindex, hposition, ← length_booked plan entered]
      rfl
  refine ⟨_, _, h.extend ht.changes hkept hold (fun {p} hp => ?_) ?_ ?_ ?_ ?_
    (fun _ => ⟨rfl, by omega, hpages⟩) (fun hnot => ?_) ht.payloadPage hcursor (hposition ▸ hroom),
    hbooked⟩
  · by_cases heq : p = plan.items.length
    · exact heq ▸ Nat.lt_succ_self _
    · exact Nat.lt_succ_of_lt (h.planned ((Function.update_of_ne heq _ _).symm.trans hp))
  · rw [hbooked]
    exact hholds
  · rw [hbooked]
    exact h.wellFormed.push hnamed hshort (h.find?_eq_none hnew)
  · have hle := h.count_le
    omega
  · intro p hp
    obtain rfl : plan.items.length = p := Nat.succ.inj (hcount.symm.trans hp)
    exact hself
  · rw [hself] at hnot
    cases hnot

/-- A message of which only a beginning is written, or which the count does not cover, is lost, and
the queue holds what it held. -/
theorem begin_lost {fault : Fault} (ht : Queue.Begins m written s t)
    (hwhole : written = size → fault = .pageMap (pagePath (recordDirectory s.memory.settings) 0)) :
    (plan.extend m s.memory.payloads.cursor written).Serves entered (lost ++ [(m, fault)]) t
      ∧ ((plan.extend m s.memory.payloads.cursor written).booked entered).live
        = (plan.booked entered).live := by
  have hposition := h.next_eq
  have hindex := ht.index_eq
  have hle := Record.breaksAt_le ht.breaks
  have hnot : entered plan.items.length = false := by
    refine Bool.eq_false_iff.mpr fun hentered => ?_
    exact Nat.lt_irrefl _ (h.planned hentered)
  have hbooked : (plan.extend m s.memory.payloads.cursor written).booked entered
      = plan.booked entered ++ [{ Item.ofMessage m with status := .deleted }] := by
    rw [booked_extend _ _ _ _ fun _ _ => rfl, hnot, if_neg Bool.false_ne_true]
  have hcount : t.memory.index.count = s.memory.index.count := by rw [hindex]
  have hbegun : (recordBytes t).Begun s.memory.index.next
      (s.memory.entryOf m).toRecord written := by
    have hblank : (recordBytes s).Begun s.memory.index.next (s.memory.entryOf m).toRecord 0 :=
      .of_blank (fun o ho => h.blank o (hposition ▸ ho.1)) _
    have hsize : 0 + written ≤ Record.size := by omega
    have hwrite := hblank.write hsize
    rwa [Nat.add_zero, Nat.zero_add, List.drop_zero, ← ht.recordBytes_eq] at hwrite
  have hbehind : countSize ≤ place s.memory.index.next := Nat.le_add_right _ _
  have hchanges : Changes (Record.Slot s.memory.index.next)
      (InRange s.memory.payloads.cursor m.size) s t :=
    ht.changes.mono (fun o ho => .inl ⟨ho.1, Nat.lt_of_lt_of_le ho.2
      (Nat.add_le_add_left hle _)⟩) fun _ => id
  have hkept : (plan.extend m s.memory.payloads.cursor written).Kept t := by
    refine h.toKept.extend hnamed hshort hchanges ht.payloadBytes_eq hbegun ht.breaks ?_ ?_ ?_ ?_
      ht.cursor_eq
    · rw [ht.recordBytes_eq, ByteSpace.count_write_of_le hbehind, hcount]
      exact h.count
    · have hle := h.count_le
      omega
    · rw [hcount]
      exact h.page.imp fun o ho => ⟨ho.1, ht.changes.recordPage o ho.2⟩
    · rw [hindex]
  have hmore : plan.Serves entered (lost ++ [(m, fault)]) s :=
    h.mono fun _ => List.mem_append_left _
  refine ⟨hmore.extend ht.changes hkept (fun _ _ => rfl)
    (fun hp => Nat.lt_succ_of_lt (h.planned hp)) ?_ ?_
    (Nat.le_of_eq hcount.symm) (fun hp => h.last (hcount.symm.trans hp)) (fun hentered => ?_)
    (fun _ => ⟨(m, fault), List.mem_append_right _ (List.mem_singleton_self _), rfl, hwhole⟩)
    ht.payloadPage hcursor (hposition ▸ hroom), ?_⟩
  · rw [hbooked, Plan.extend, ← length_booked plan entered, Items.held_concat_of_dead rfl]
    exact h.holds.make (by rw [hindex]) (by rw [hindex]) (by rw [hindex])
  · have hentered : Status.deleted ≠ .vacant := by decide
    have hdead : Status.deleted.isLive ≠ true := by decide
    rw [hbooked]
    exact h.wellFormed.concat hnamed hentered hshort fun hlive => absurd hlive hdead
  · rw [hnot] at hentered
    cases hentered
  · rw [hbooked, Items.live_append]
    exact List.append_nil _

/-- A push that breaks off loses its message, and the queue holds what it held. -/
theorem broken {fault : Fault} (ht : Broken m fault s t) :
    ∃ plan' : Plan, plan'.Serves entered (lost ++ [(m, fault)]) t
      ∧ (plan'.booked entered).live = (plan.booked entered).live := by
  cases ht with
  | payload hchanges hstop hindex =>
    -- only bytes behind all payloads are replaced
    have haside : plan.Serves entered lost t :=
      h.aside hchanges hindex (hstop ▸ Nat.le_add_right _ _)
        fun o ho hsettled =>
          (hchanges.payloadBytes o fun hin => Nat.not_le_of_lt ho hin.1).trans hsettled
    exact ⟨plan, haside.mono fun _ => List.mem_append_left _, rfl⟩
  | record written hbegins _ hwhole =>
    exact ⟨_, h.begin_lost hroom hcursor hnamed hshort hbegins hwhole⟩

end

/-! ## Reading and moving -/

/-- An entry of the queue can be read if nothing is refused, since all of its pages are there. -/
theorem readable (h : plan.Serves entered lost s) (hcalm : s.host.disk.refused = [])
    (hp : plan.items[p]? = some i) : Readable s (i.toEntry p (plan.layout p)) :=
  h.toKept.readable h.layout_lt hp (.inl rfl) (.inr ⟨hcalm, h.payloadPage hp⟩)

/-- A message in the queue is read where it lies, or it is not since a page of it is refused. -/
theorem readMessage?_leads (h : plan.Serves entered lost s) {found : Option EntryId}
    (hfound : ∀ id, found = some id → ∃ p : Nat, s.memory.index.ordered[p]? = some id) :
    (Queue.readMessage? found).Leads s (fun _ t => plan.Serves entered lost t)
      fun _ t => plan.Serves entered lost t := by
  cases found with
  | none => exact h
  | some id =>
    obtain ⟨p, hid⟩ := hfound id rfl
    obtain ⟨i, hi⟩ := h.holds.stands hid
    have hitem := (of_booked hi.item hi.isLive).1
    have hentry : s.memory.index.entry id = i.toEntry p (plan.layout p) := hi.entry
    unfold Queue.readMessage?
    simp only [leads_bind, leads_pure]
    refine (Queue.readMessage_leads h.mounted id ?_).mono ?_ ?_
    · rw [hentry]
      exact h.toKept.stop_le h.layout_lt hitem (.inl rfl)
    · intro _ t ht
      obtain ⟨-, hc, hindex, hcursor⟩ := ht
      exact h.quiet hc (by rw [hindex]) hcursor
    · intro _ t ht
      obtain ⟨⟨hc, hindex, hcursor⟩, -⟩ := ht
      exact h.quiet hc (by rw [hindex]) hcursor

/-- A message that moves is served where it stands then. -/
theorem setStatus (h : plan.Serves entered lost s) (hp : plan.items[p]? = some i)
    (hentered : entered p = true) {status : Status} (hlive : i.status.isLive = true)
    (hused : status ≠ .vacant) (hc : Changes (InRange (place p + statusOffset) 4) Nowhere s t)
    (hkept : Kept { plan with items := plan.items.setStatus p status } t)
    (hholds : t.memory.index.Holds (((plan.booked entered).setStatus p status).held plan.layout))
    (hcount : t.memory.index.count = s.memory.index.count) :
    Serves { plan with items := plan.items.setStatus p status } entered lost t := by
  have hlength : (plan.items.setStatus p status).length = plan.items.length :=
    Items.length_setStatus ..
  have hbooked := plan.booked_setStatus hentered status
  have hpayload {q : Nat} {j : Item} (hj : (plan.items.setStatus p status)[q]? = some j) :
      ∃ j₀, plan.items[q]? = some j₀ ∧ j₀.payload = j.payload ∧ (p ≠ q → j = j₀) := by
    rw [Items.getElem?_setStatus, Option.map_eq_some_iff] at hj
    obtain ⟨j₀, hj₀, rfl⟩ := hj
    refine ⟨j₀, hj₀, ?_, fun hne => if_neg hne⟩
    split <;> rfl
  exact {
    toKept := hkept
    holds := hbooked ▸ hholds
    wellFormed := hbooked ▸ h.wellFormed.setStatus (booked_of_entered hp hentered) hlive hused
    planned := fun hq => hlength.symm ▸ h.planned hq
    whole := h.whole
    covered := hcount ▸ h.covered
    last := hcount ▸ h.last
    lost_of_not_entered := fun {q j} hq hnot => by
      obtain ⟨j₀, hj₀, -, hsame⟩ := hpayload hq
      have hne : p ≠ q := fun heq => by
        rw [← heq, hentered] at hnot
        cases hnot
      rw [hsame hne, hc.settings]
      exact h.lost_of_not_entered hj₀ hnot
    countPage := fun o ho => hc.recordPage o (h.countPage o ho)
    recordPage := fun hq o ho => hc.recordPage o (h.recordPage hq o ho)
    payloadPage := fun hq o ho => by
      obtain ⟨j₀, hj₀, hpayload, -⟩ := hpayload hq
      exact hc.payloadPage o (h.payloadPage hj₀ o (hpayload.symm ▸ ho))
    layout_lt := fun q hq => h.layout_lt q (hlength ▸ hq)
    length_lt := hlength.symm ▸ h.length_lt }

/-- A call that answers moves the message that it would move in the list of what is in the queue. -/
theorem run_leads (h : plan.Serves entered lost s) (c : StatusCall) :
    c.run.Leads s (fun _ t => ∃ plan' : Plan, plan'.Serves entered lost t
      ∧ plan'.booked entered = (plan.booked entered).moveFirst c.wants c.kind.target)
      fun _ _ => True := by
  -- whatever is selected stands at a position that was entered
  have hstands (id : EntryId) (hselected : c.selected? s.memory.index = some id) :
      ∃ p i, (plan.booked entered).findIdx? c.wants = some p ∧ plan.items[p]? = some i
        ∧ entered p = true ∧ Stands s.memory.index (plan.booked entered) plan.layout p i id := by
    rcases c.selected?_cases h.holds h.wellFormed with ⟨p, i, id', hp, hid, hstands⟩ | ⟨-, hnone⟩
    · obtain rfl := Option.some.inj (hid.symm.trans hselected)
      obtain ⟨hitem, hentered⟩ := of_booked hstands.item hstands.isLive
      exact ⟨p, i, hp, hitem, hentered, hstands⟩
    · rw [hnone] at hselected
      cases hselected
  have hplace {id : EntryId} {p : Nat} {i : Item}
      (hi : Stands s.memory.index (plan.booked entered) plan.layout p i id) :
      s.memory.index.statusPlace id = place p + statusOffset := by
    rw [MessageIndex.statusPlace, hi.entry]
    rfl
  refine (Queue.move_leads h.mounted c h.holds.indexed (fun id hselected => ?_)
    fun id hselected => ?_).mono ?_ fun _ _ _ => trivial
  · obtain ⟨p, i, -, hitem, -, hi⟩ := hstands id hselected
    rw [hi.entry]
    exact Nat.lt_trans (Items.lt_length hitem) h.length_lt
  · obtain ⟨p, i, -, hitem, -, hi⟩ := hstands id hselected
    rw [hi.entry]
    exact h.toKept.stop_le h.layout_lt hitem (.inl rfl)
  · intro answer t ht
    rcases ht with ⟨-, rfl, hnone⟩ | ⟨id, m, -, -, hselected, hc, hbytes, hindex, hcursor⟩
    · refine ⟨plan, h, ?_⟩
      rcases c.selected?_cases h.holds h.wellFormed with ⟨p, i, id, -, hid, -⟩ | ⟨hp, -⟩
      · rw [hnone] at hid
        cases hid
      · rw [Items.moveFirst, hp]
    · obtain ⟨p, i, hp, hitem, hentered, hi⟩ := hstands id hselected
      rw [hplace hi] at hc hbytes
      have hcount : t.memory.index.count = s.memory.index.count := by
        rw [hindex]
        exact c.count_done _ id
      have hnext : t.memory.index.next = s.memory.index.next := by
        rw [hindex]
        exact c.next_done _ id
      have hholds : t.memory.index.Holds
          (((plan.booked entered).setStatus p c.kind.target).held plan.layout) :=
        (StatusCall.holds_setStatus h.holds hi hselected).congr (by rw [hindex]) (by rw [hindex])
          (by rw [hindex])
      refine ⟨_, h.setStatus hitem hentered hi.isLive c.kind.target_ne_vacant hc
        (h.toKept.setStatus hitem (h.whole hentered) hc hbytes hnext hcount hcursor) hholds hcount,
        ?_⟩
      rw [plan.booked_setStatus hentered, Items.moveFirst, hp]

end Serves

end Plan

end PagedQueue
