import PagedQueue.Proofs.ServedPlans
import PagedQueue.Proofs.TornRecords

/-!
# What comes up of a plan

A queue that serves a plan is given up or closed, and loaded again. What comes up is read off the
records alone, so it can differ from what was in the queue, but only by messages that were lost
(`Plan.LostAt`). Of a record that straddles two pages so much may be written that it counts: then
its message comes up torn. A record may be whole whose push failed at the count: then its message
comes up as it was to be. In both cases a later message of the same UUID, which was put in, does not
come up at all (`Plan.Serves.comesUp`).
-/

namespace PagedQueue

open Procedure
open Record (place size Straddles)

/-- A message whose push failed comes up, and waits: torn, as the record of some position straddles
two pages, or whole, as its push failed at the page of the count. -/
structure Message.ComesBack (lost : List (Message × Fault)) (countPage : Path)
    (pageSize count : Nat) (found : Message × Status) : Prop where
  lost : ∃ x ∈ lost, x.1.Torn found.1 ∧ (∃ p < count, Straddles pageSize p)
    ∨ found.1 = x.1 ∧ x.2 = .pageMap countPage
  status : found.2 = .new

/-- What comes up of what was in a queue if some messages were lost, as long as the records below
the count are looked at. -/
structure ComesUp (lost : List (Message × Fault)) (countPage : Path) (pageSize count : Nat)
    (before found : List (Message × Status)) : Prop where
  /-- What comes up was there, or was lost and comes back. -/
  old_or_lost : ∀ x ∈ found, x ∈ before ∨ Message.ComesBack lost countPage pageSize count x
  /-- What was there comes up, unless a lost message of the same UUID comes back in its place. -/
  kept_or_displaced : ∀ x ∈ before, x ∈ found
    ∨ ∃ y ∈ found, y.1.uuid = x.1.uuid ∧ Message.ComesBack lost countPage pageSize count y
  /-- All messages of which the UUID is not that of a lost one come up as they were, in the same
  order. -/
  others : found.filter (fun x => ∀ y ∈ lost, y.1.uuid ≠ x.1.uuid)
    = before.filter fun x => ∀ y ∈ lost, y.1.uuid ≠ x.1.uuid
  /-- Where no record straddles two pages and no push failed at the page of the count, all is as it
  was. -/
  same : (∀ p < count, ¬ Straddles pageSize p) → (∀ x ∈ lost, x.2 ≠ .pageMap countPage) →
    found = before

/-- What is found nowhere behind some number is found below it. -/
theorem filterMap_range_eq {α : Type} {f : Nat → Option α} {m n : Nat} (hle : m ≤ n)
    (hnone : ∀ p, m ≤ p → f p = none) :
    (List.range n).filterMap f = (List.range m).filterMap f := by
  obtain ⟨more, rfl⟩ := Nat.exists_eq_add_of_le hle
  have hrest : ((List.range more).map (m + ·)).filterMap f = [] := by
    rw [List.filterMap_eq_nil_iff]
    intro p hp
    obtain ⟨k, -, rfl⟩ := List.mem_map.mp hp
    exact hnone _ (Nat.le_add_right _ _)
  rw [List.range_add, List.filterMap_append, hrest, List.append_nil]

theorem Message.Torn.uuid_eq {m found : Message} (h : m.Torn found) : found.uuid = m.uuid := by
  rcases h with rfl | rfl <;> rfl

/-- What comes back has the UUID of a message that was lost. -/
theorem Message.ComesBack.exists_uuid_eq {lost : List (Message × Fault)} {countPage : Path}
    {pageSize count : Nat} {found : Message × Status}
    (h : Message.ComesBack lost countPage pageSize count found) : ∃ x ∈ lost,
      x.1.uuid = found.1.uuid := by
  obtain ⟨x, hx, ⟨htorn, -⟩ | ⟨heq, -⟩⟩ := h.lost
  · exact ⟨x, hx, htorn.uuid_eq.symm⟩
  · exact ⟨x, hx, congrArg Message.uuid heq.symm⟩

namespace Plan

open Queue (recordBytes recordReach recordDirectory messageOf contents)
open Disk (pagePath)

/-- The message of a position was lost, and comes back as this entry. -/
structure LostAt (plan : Plan) (entered : Nat → Bool) (lost : List (Message × Fault))
    (s : Session Queue) (p : Nat) (e : Entry) : Prop where
  free : (plan.booked entered).held plan.layout p = none
  lost : ∃ x ∈ lost, ∃ j : Item, plan.items[p]? = some (.ofMessage x.1)
    ∧ e = j.toEntry p (plan.layout p)
    ∧ (j = .ofMessage x.1 ∧ x.2 = .pageMap (pagePath (recordDirectory s.memory.settings) 0)
      ∨ Straddles s.memory.settings.pageSize p ∧ (Item.ofMessage x.1).Torn j)

variable {plan : Plan} {entered : Nat → Bool} {lost : List (Message × Fault)} {s : Session Queue}
  {p : Nat} {e : Entry}

namespace Serves

/-- What is in the queue is below the count, and its record is live. -/
theorem of_held (h : plan.Serves entered lost s)
    (he : (plan.booked entered).held plan.layout p = some e) :
    p < s.memory.index.count ∧ (recordBytes s).recordAt p = e.toRecord ∧ e.toRecord.IsLive := by
  obtain ⟨i, hp, hlive, rfl⟩ := Items.held_eq_some_iff.mp he
  obtain ⟨hitem, hentered⟩ := of_booked hp hlive
  have hbegun := h.begun hitem
  rw [h.whole hentered] at hbegun
  exact ⟨h.covered hentered, hbegun.recordAt_eq,
    (Item.isLive_toRecord_iff (h.named i (List.mem_of_getElem? hitem))).mpr hlive⟩

/-- What comes up at a position was in the queue, or was lost. -/
theorem of_liveAt? (h : plan.Serves entered lost s)
    (he : (recordBytes s).liveAt? s.memory.index.count p = some e) :
    (plan.booked entered).held plan.layout p = some e ∨ plan.LostAt entered lost s p e := by
  obtain ⟨hlt, hfirst, rfl⟩ := ByteSpace.liveAt?_eq_some_iff.mp he
  have hitem := List.getElem?_eq_getElem (Nat.lt_of_lt_of_le hlt h.count_le)
  have hnamed := h.named _ (List.mem_of_getElem? hitem)
  rcases h.recordAt_cases hitem with hvacant | ⟨j, heq, hj⟩
  · exact absurd hfirst.1 hvacant.not_isLive
  · have hrecord := hfirst.1
    have hback : (j.toEntry p (plan.layout p)).toRecord.toEntry p = j.toEntry p (plan.layout p) :=
      Entry.toEntry_toRecord ((Entry.isLive_toRecord_iff _).mp (heq ▸ hrecord)).2
    rw [heq] at hrecord ⊢
    rw [hback]
    cases hentered : entered p with
    | true =>
      -- the record of a message that was entered is whole
      rcases hj with ⟨-, rfl⟩ | ⟨hbegun, -, -⟩
      · exact .inl (Items.held_of_live (booked_of_entered hitem hentered)
          ((Item.isLive_toRecord_iff hnamed).mp hrecord))
      · exact absurd (h.whole hentered) hbegun
    | false =>
      obtain ⟨x, hx, hmessage, hfault⟩ := h.lost_of_not_entered hitem hentered
      rw [hmessage] at hitem hj
      refine .inr ⟨held_of_not_entered hentered, x, hx, j, hitem, rfl, ?_⟩
      rcases hj with ⟨hwhole, rfl⟩ | ⟨-, hstraddles, htorn⟩
      · exact .inl ⟨rfl, hfault hwhole⟩
      · exact .inr ⟨hstraddles, htorn⟩

/-- What was in the queue comes up, unless a message that was lost comes up before it. -/
theorem of_held_cases (h : plan.Serves entered lost s)
    (he : (plan.booked entered).held plan.layout p = some e) :
    (recordBytes s).liveAt? s.memory.index.count p = some e
      ∨ ∃ q e', (recordBytes s).liveAt? s.memory.index.count q = some e' ∧ e'.uuid = e.uuid
        ∧ plan.LostAt entered lost s q e' := by
  obtain ⟨hlt, heq, hlive⟩ := h.of_held he
  obtain ⟨q, hle, hfirst, huuid⟩ := ByteSpace.exists_firstLive (heq.symm ▸ hlive)
  have hlive' := ByteSpace.liveAt?_eq_some_iff.mpr ⟨Nat.lt_of_le_of_lt hle hlt, hfirst, rfl⟩
  have hsame : (((recordBytes s).recordAt q).toEntry q).uuid = e.uuid := by
    rw [heq] at huuid
    exact huuid.trans (Uuid.ofHalves_high_low e.uuid)
  rcases h.of_liveAt? hlive' with hheld | hlost
  · -- no other entry of the queue has the UUID
    obtain rfl := h.holds.queued.unique hheld he hsame
    exact .inl (hlive'.trans (hheld.symm.trans he))
  · exact .inr ⟨q, _, hlive', hsame, hlost⟩

/-- A message that was lost is told as it comes back. -/
theorem comesBack (h : plan.Serves entered lost s)
    (he : (recordBytes s).liveAt? s.memory.index.count p = some e)
    (hlost : plan.LostAt entered lost s p e) :
    Message.ComesBack lost (pagePath (recordDirectory s.memory.settings) 0)
      s.memory.settings.pageSize s.memory.index.count (messageOf s e, e.status) := by
  obtain ⟨-, x, hx, j, hitem, rfl, hj⟩ := hlost
  have hmessage : messageOf s (j.toEntry p (plan.layout p)) = j.message :=
    h.toKept.messageOf_eq h.layout_lt hitem (hj.imp_left And.left)
  have hlt := (ByteSpace.liveAt?_eq_some_iff.mp he).1
  rcases hj with ⟨rfl, hfault⟩ | ⟨hstraddles, htorn⟩
  · exact ⟨⟨x, hx, .inr ⟨hmessage, hfault⟩⟩, rfl⟩
  · exact ⟨⟨x, hx, .inl ⟨hmessage ▸ htorn.message, p, hlt, hstraddles⟩⟩, htorn.status_eq⟩

/-- What is read off the records, compared with what was in the queue. -/
theorem comesUp (h : plan.Serves entered lost s) :
    ComesUp lost (pagePath (recordDirectory s.memory.settings) 0) s.memory.settings.pageSize
      s.memory.index.count ((List.range s.memory.index.count).filterMap fun p =>
        ((plan.booked entered).held plan.layout p).map fun e => (messageOf s e, e.status))
      ((List.range s.memory.index.count).filterMap fun p =>
        ((recordBytes s).liveAt? s.memory.index.count p).map fun e =>
          (messageOf s e, e.status)) := by
  have hmem {at? : Nat → Option Entry} {p : Nat} {e : Entry} (he : at? p = some e)
      (hlt : p < s.memory.index.count) : (messageOf s e, e.status)
        ∈ (List.range s.memory.index.count).filterMap fun p =>
          (at? p).map fun e => (messageOf s e, e.status) :=
    List.mem_filterMap.mpr ⟨p, List.mem_range.mpr hlt, by rw [he]; rfl⟩
  have hlt {p : Nat} {e : Entry} (he : (recordBytes s).liveAt? s.memory.index.count p = some e) :
      p < s.memory.index.count := (ByteSpace.liveAt?_eq_some_iff.mp he).1
  -- position by position both agree where nothing that was lost has the UUID
  have hiff {p : Nat} {e : Entry}
      (hnot : ∀ q e', (recordBytes s).liveAt? s.memory.index.count q = some e' →
      e'.uuid = e.uuid → ¬ plan.LostAt entered lost s q e') :
      (recordBytes s).liveAt? s.memory.index.count p = some e
        ↔ (plan.booked entered).held plan.layout p = some e := by
    constructor
    · intro he
      exact (h.of_liveAt? he).resolve_right (hnot p e he rfl)
    · intro he
      refine (h.of_held_cases he).resolve_right fun hand => ?_
      obtain ⟨q, e', he', huuid, hlost⟩ := hand
      exact hnot q e' he' huuid hlost
  refine ⟨fun x hx => ?_, fun x hx => ?_, ?_, fun hstraddles hfaults => ?_⟩
  · obtain ⟨p, -, hp⟩ := List.mem_filterMap.mp hx
    obtain ⟨e, he, rfl⟩ := Option.map_eq_some_iff.mp hp
    rcases h.of_liveAt? he with hheld | hlost
    · exact .inl (hmem hheld (hlt he))
    · exact .inr (h.comesBack he hlost)
  · obtain ⟨p, -, hp⟩ := List.mem_filterMap.mp hx
    obtain ⟨e, he, rfl⟩ := Option.map_eq_some_iff.mp hp
    rcases h.of_held_cases he with hlive | ⟨q, e', hlive, huuid, hlost⟩
    · exact .inl (hmem hlive (hlt hlive))
    · exact .inr ⟨_, hmem hlive (hlt hlive), huuid, h.comesBack hlive hlost⟩
  · rw [List.filter_filterMap, List.filter_filterMap]
    refine List.filterMap_congr fun p _ => Option.ext fun x => ?_
    simp only [Option.filter_eq_some_iff, Option.map_eq_some_iff, decide_eq_true_eq]
    refine and_congr_left fun hothers => exists_congr fun e => and_congr_left fun htold => ?_
    subst htold
    refine hiff fun q e' he' huuid hlost => ?_
    obtain ⟨y, hy, hsame⟩ := (h.comesBack he' hlost).exists_uuid_eq
    exact hothers y hy (hsame.trans huuid)
  · refine List.filterMap_congr fun p _ => congrArg _ (Option.ext fun e => hiff ?_)
    intro q e' he' _ hlost
    obtain ⟨-, x, hx, -, -, -, ⟨-, hfault⟩ | ⟨hstraddle, -⟩⟩ := hlost
    · exact hfaults x hx hfault
    · exact hstraddles q (hlt he') hstraddle

/-! ## Before and after -/

/-- What is held below the count is all that is in the queue. -/
theorem told_eq (h : plan.Serves entered lost s) : (plan.booked entered).contents
    = (List.range s.memory.index.count).filterMap fun p =>
      ((plan.booked entered).held plan.layout p).map fun e => (messageOf s e, e.status) := by
  have hle : s.memory.index.count ≤ (plan.booked entered).length :=
    plan.length_booked entered ▸ h.count_le
  rw [← filterMap_range_eq hle fun p hp => ?_, Items.contents_eq_filterMap]
  · refine List.filterMap_congr fun p _ => ?_
    rw [Items.held, Option.map_map]
    refine Option.map_congr fun i hi => ?_
    obtain ⟨hp, hlive⟩ := Option.filter_eq_some_iff.mp hi
    have hmessage : messageOf s (i.toEntry p (plan.layout p)) = i.message :=
      h.toKept.messageOf_eq h.layout_lt (of_booked hp hlive).1 (.inl rfl)
    exact Prod.ext hmessage.symm rfl
  · have hnone : (plan.booked entered).held plan.layout p = none :=
      Option.eq_none_iff_forall_ne_some.mpr fun e he => Nat.not_lt_of_le hp (h.of_held he).1
    rw [hnone, Option.map_none]

/-- Reading everything tells what is in the queue, if nothing is refused. -/
theorem contents_ensures (h : plan.Serves entered lost s) (hcalm : s.host.disk.refused = []) :
    contents.Ensures s fun found _ => found = (plan.booked entered).contents := by
  rw [h.told_eq]
  refine Queue.contents_of_holds h.mounted h.holds (fun he => (h.of_held he).1) fun he => ?_
  obtain ⟨i, hp, hlive, rfl⟩ := Items.held_eq_some_iff.mp he
  exact h.readable hcalm (of_booked hp hlive).1

/-- The pages of the records reach as far as the count does. -/
theorem place_count_le (h : plan.Serves entered lost s) :
    place s.memory.index.count ≤ recordReach s := by
  cases hcount : s.memory.index.count with
  | zero =>
    have hlast := h.mounted.lt_recordReach (h.countPage 3 ⟨Nat.zero_le _, by decide⟩) (by decide)
    simp only [place, Record.countSize]
    omega
  | succ p =>
    have hp : p < plan.items.length := by
      have hle := h.count_le
      omega
    have hlength := h.length_lt
    have hlast := h.mounted.lt_recordReach (h.recordPage (h.last hcount) (place p + 35)
      ⟨by omega, by simp only [size]; omega⟩) (by simp only [place, Record.countSize, size]; omega)
    simp only [place, Record.countSize, size] at hlast ⊢
    omega

/-- Once nothing is refused, what is on disk can be loaded, and what comes up is what was in the
queue but for what was lost. -/
theorem load_comesUp (h : plan.Serves entered lost s) (hcalm : s.host.disk.refused = [])
    (hrecords : s.host.disk.Openable (Queue.recordDirectory s.memory.settings)) (policy : Policy)
    {host : Host} (hdisk : host.disk = s.host.disk) :
    (contents.outcome s).1 = .ok (plan.booked entered).contents
      ∧ ∃ queue opened found,
        (Queue.load (policy.onSettings s.memory.settings)).outcome (⟨host, ()⟩ : Session Unit)
          = (.ok queue, opened)
        ∧ (contents.outcome ⟨opened.host, queue⟩).1 = .ok found
        ∧ ComesUp lost (pagePath (recordDirectory s.memory.settings) 0) s.memory.settings.pageSize
          s.memory.index.count (plan.booked entered).contents found := by
  obtain ⟨_, _, hbefore, rfl⟩ := (h.contents_ensures hcalm).outcome
  obtain ⟨queue, opened, hload, hfound⟩ :=
    (h.toKept.load_contents h.length_lt h.layout_lt h.place_count_le
    hrecords (fun hp => .inr ⟨hcalm, h.payloadPage hp⟩) policy hdisk).outcome
  refine ⟨by rw [hbefore], queue, opened, _, hload, hfound, ?_⟩
  rw [h.told_eq]
  exact h.comesUp

end Serves

end Plan

end PagedQueue
