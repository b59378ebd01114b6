import PagedQueue.Page.Clients
import PagedQueue.Proofs.ClientRuns
import PagedQueue.Proofs.Keeping

/-!
# Sections of a shared page store

Which stages may follow one another is told once (`PageStage.Follows`), and a step does nothing else
(`PageStage.act_follows`). So a client gets no more than it waited for: the locks of a shared store
count the clients in its sections rightly, and while a client writes the cache no other one is in a
section (`Guarded.pass`).
-/

namespace PagedQueue

open Procedure

namespace PageStage

variable {k k' : PageStage}

/-! ## Which stages follow one another -/

/-- One stage may come after another. -/
inductive Follows : PageStage → PageStage → Prop
  | found {index ticket? id} : Follows (.lookUp index ticket?) (.readCount (.look index ticket?) id)
  | missing {index ticket?} : Follows (.lookUp index ticket?) (.leaveLook index ticket? none)
  | readCount {place id count} : Follows (.readCount place id) (.raiseCount place id count)
  | collected {place id count} : Follows (.raiseCount place id count) place.missed
  | recount {place id count count'} : Follows (.raiseCount place id count)
    (.raiseCount place id count')
  | counted {place id count} : Follows (.raiseCount place id count) (place.found id)
  | touchFound {index ticket? id} : Follows (.touchFound index ticket? id)
    (.leaveLook index ticket? (some id))
  | handOut {index id} : Follows (.leaveLook index none (some id)) (.ended (.ok (.page index id)))
  | wantTicket {index} : Follows (.leaveLook index none none) (.takeTicket index)
  | endTurn {index ticket id} :
    Follows (.leaveLook index (some ticket) (some id)) (.leaveTurn index ticket (.ok id))
  | wantPage {index ticket} : Follows (.leaveLook index (some ticket) none) (.map index ticket)
  | takeTicket {index ticket} : Follows (.takeTicket index) (.awaitTurn index ticket)
  | takeTurn {index ticket} : Follows (.awaitTurn index ticket) (.lookUp index (some ticket))
  | mapped {index ticket page} : Follows (.map index ticket) (.openInsert index ticket page)
  | unmapped {index ticket fault} : Follows (.map index ticket)
    (.leaveTurn index ticket (.error fault))
  | foundOther {index ticket page id} :
    Follows (.openInsert index ticket page) (.readCount (.insert index ticket page) id)
  | missingStill {index ticket page} : Follows (.openInsert index ticket page)
    (.putPage index ticket page)
  | putPage {index ticket page id} : Follows (.putPage index ticket page)
    (.leaveInsert index ticket id)
  | leaveInsert {index ticket id} : Follows (.leaveInsert index ticket id)
    (.startSweep (.lease index ticket id))
  | startSweep {swept now} : Follows (.startSweep swept) (.openSweep swept now)
  | openSweep {swept now rest} : Follows (.openSweep swept now) (.examine swept now rest [])
  | examined {swept now gone} : Follows (.examine swept now [] gone) (.leaveSweep swept gone)
  | passOver {swept now first rest gone} :
    Follows (.examine swept now (first :: rest) gone) (.examine swept now rest gone)
  | expired {swept now index id rest gone} :
    Follows (.examine swept now ((index, id) :: rest) gone) (.collect swept now index id rest gone)
  | collect {swept now index id rest gone gone'} :
    Follows (.collect swept now index id rest gone) (.examine swept now rest gone')
  | leaveSweep {swept gone ids count} : Follows (.leaveSweep swept gone)
    (.closePages swept ids count)
  | closePage {swept id ids count} : Follows (.closePages swept (id :: ids) count)
    (.closePages swept ids count)
  | swept {count} : Follows (.closePages .call [] count) (.ended (.ok (.swept count)))
  | leased {index ticket id count} :
    Follows (.closePages (.lease index ticket id) [] count) (.leaveTurn index ticket (.ok id))
  | leaveTurn {index ticket answer} : Follows (.leaveTurn index ticket answer)
    (.withdrawTicket index answer)
  | withdrawTicket {index answer answer'} : Follows (.withdrawTicket index answer) (.ended answer')
  | foundLeased {index id} : Follows (.findLeased index) (.lowerCount true id)
  | missingLeased {index} : Follows (.findLeased index) .leaveRelease
  | lowerCount {byNumber id} : Follows (.lowerCount byNumber id) (.touchBack byNumber id)
  | touchNumbered {id} : Follows (.touchBack true id) .leaveRelease
  | touchBack {id} : Follows (.touchBack false id) (.ended (.ok .done))
  | leaveRelease : Follows .leaveRelease (.ended (.ok .done))
  | use {id how answer} : Follows (.use id how) (.ended (.ok answer))
  | ended {answer} : Follows (.ended answer) (.ended answer)

/-- A step leads to a stage that may follow. It fails only where a page is used. -/
theorem act_follows (k : PageStage) (s : Session PageStore) :
    k.act.Leads s (fun k' _ => Follows k k') fun _ _ => ∃ id how, k = .use id how := by
  -- one case for each stage; where the step looks at the store there are two ways on
  cases k with
  | lookUp =>
    unfold act
    rw [leads_bind, leads_memory]
    split
    · exact .found
    · exact .missing
  | readCount => exact .readCount
  | raiseCount =>
    simp only [act, leads_ite, leads_bind, leads_memory, leads_update, leads_pure]
    split
    · exact .collected
    · split
      · exact .recount
      · exact .counted
  | touchFound => exact .touchFound
  | leaveLook index ticket? found? =>
    cases ticket? <;> cases found?
    · exact .wantTicket
    · exact .handOut
    · exact .wantPage
    · exact .endTurn
  | takeTicket =>
    unfold act PageStore.takeTicket
    rw [leads_bind, leads_bind, leads_memory]
    split <;> exact .takeTicket
  | awaitTurn => exact .takeTurn
  | map =>
    refine (leads_tryCatch _ _).mpr ((leads_bind _ _).mpr ((keeps_true _ s trivial).mono ?_ ?_))
    · exact fun _ _ _ => .mapped
    · exact fun _ _ _ => .unmapped
  | openInsert =>
    unfold act
    rw [leads_bind, leads_memory]
    split
    · exact .foundOther
    · exact .missingStill
  | putPage => exact .putPage
  | leaveInsert => exact .leaveInsert
  | startSweep => exact .startSweep
  | openSweep => exact .openSweep
  | examine swept now rest gone =>
    cases rest with
    | nil => exact .examined
    | cons first rest =>
      simp only [act, leads_bind, leads_memory, leads_ite, leads_pure]
      split
      · exact .expired
      · exact .passOver
  | collect =>
    simp only [act, leads_bind, leads_memory, leads_ite, leads_update, leads_pure]
    split <;> exact .collect
  | leaveSweep => exact .leaveSweep
  | closePages swept ids =>
    cases ids with
    | nil =>
      cases swept
      · exact .swept
      · exact .leased
    | cons => exact .closePage
  | leaveTurn => exact .leaveTurn
  | withdrawTicket => exact .withdrawTicket
  | findLeased =>
    unfold act
    rw [leads_bind, leads_memory]
    split
    · exact .foundLeased
    · exact .missingLeased
  | lowerCount => exact .lowerCount
  | touchBack byNumber =>
    cases byNumber
    · exact .touchBack
    · exact .touchNumbered
  | leaveRelease => exact .leaveRelease
  | use =>
    refine (leads_bind _ _).mpr ((keeps_true _ s trivial).mono
      (fun _ _ _ => .use) fun _ _ _ => ⟨_, _, rfl⟩)
  | ended => exact .ended

/-! ## What a client gets -/

/-- What a client may get when it goes from one stage to another: nothing more than it had, or what
it waited for. -/
structure Passes (k k' : PageStage) : Prop where
  reading : k'.section? = some .reading → k.section? = some .reading
    ∨ k.awaits = some .reading ∧ k.section? = none
  writing : k'.section? = some .writing → k.section? = some .writing
    ∨ k.awaits = some .writing ∧ k.section? = none

theorem passes_of_same (h : k'.section? = k.section?) : Passes k k' :=
  ⟨fun hk => .inl (h.symm.trans hk), fun hk => .inl (h.symm.trans hk)⟩

theorem passes_of_none (h : k'.section? = none) : Passes k k' :=
  ⟨fun hk => absurd (h.symm.trans hk) (by simp), fun hk => absurd (h.symm.trans hk) (by simp)⟩

theorem passes_reading (h : k.awaits = some .reading) (hnone : k.section? = none)
    (hk : k'.section? = some .reading) : Passes k k' :=
  ⟨fun _ => .inr ⟨h, hnone⟩, fun hk' => absurd (hk.symm.trans hk') (by simp)⟩

theorem passes_writing (h : k.awaits = some .writing) (hnone : k.section? = none)
    (hk : k'.section? = some .writing) : Passes k k' :=
  ⟨fun hk' => absurd (hk.symm.trans hk') (by simp), fun _ => .inr ⟨h, hnone⟩⟩

theorem Follows.passes (h : Follows k k') : Passes k k' := by
  cases h with
  | found | missing | foundLeased | missingLeased => exact passes_reading rfl rfl rfl
  | foundOther | missingStill | openSweep => exact passes_writing rfl rfl rfl
  | @readCount place => exact passes_of_same (by cases place <;> rfl)
  | @collected place => exact passes_of_same (by cases place <;> rfl)
  | @recount place => exact passes_of_same (by cases place <;> rfl)
  | @counted place => exact passes_of_same (by cases place <;> rfl)
  | @lowerCount byNumber => exact passes_of_same (by cases byNumber <;> rfl)
  | touchFound | putPage | examined | passOver | expired | collect | touchNumbered =>
    exact passes_of_same rfl
  | _ => exact passes_of_none rfl

/-- A step gets no more than it waited for, and fails in no section. -/
theorem act_passes (k : PageStage) (s : Session PageStore) :
    k.act.Leads s (fun k' _ => Passes k k') fun _ _ => k.section? = none :=
  (act_follows k s).mono (fun _ _ => Follows.passes) fun _ _ huse => by
    obtain ⟨_, _, rfl⟩ := huse
    rfl

/-- A step is what it does to the store, if what it waits for is free. -/
theorem advance_leads {s : Session SharedStore} {done : PageStage → Session SharedStore → Prop}
    {failed : Fault → Session SharedStore → Prop} (hblocked : k.awaits.all s.memory.grants = false →
      done k s)
    (hact : k.awaits.all s.memory.grants = true → k.act.Leads ⟨s.host, s.memory.store⟩
      (fun k' t => done k' ⟨t.host, ({ s.memory with store := t.memory } : SharedStore).pass k k'⟩)
      fun fault t => failed fault ⟨t.host, { s.memory with store := t.memory }⟩) :
    k.advance.Leads s done failed := by
  unfold advance
  rw [leads_bind, leads_memory, leads_ite]
  split
  next hgrants =>
    unfold SharedStore.onStore
    simp only [leads_bind, leads_within, leads_update, leads_pure]
    exact hact hgrants
  next hblocks => exact hblocked (Bool.eq_false_of_not_eq_true hblocks)

end PageStage

/-- The locks tell which clients are in the sections of the store. -/
structure Guarded (w : Crowd SharedStore PageStage) : Prop where
  readers : ∃ inside : List Nat, inside.Nodup ∧ inside.length = w.session.memory.readers
    ∧ ∀ client, client ∈ inside ↔ (w.stage client).section? = some .reading
  isWritten : ∀ {client}, (w.stage client).section? = some .writing →
    w.session.memory.isWritten = true
  alone : ∀ {client other}, (w.stage client).section? = some .writing →
    (w.stage other).section? ≠ none →
    other = client

namespace Guarded

variable {w : Crowd SharedStore PageStage} {client : Nat} {k k' : PageStage} {host : Host}
  {store : PageStore}

/-- No client is in a section that another one gets. -/
theorem free (h : Guarded w) {other : Nat} (hsection : (w.stage other).section? ≠ none) :
    w.session.memory.grants .writing = false
      ∧ ((w.stage other).section? = some .writing → w.session.memory.grants .reading = false) := by
  have hwritten (hwriting : (w.stage other).section? = some .writing) := h.isWritten hwriting
  refine ⟨?_, fun hwriting => by simp [SharedStore.grants, hwritten hwriting]⟩
  cases hother : (w.stage other).section? with
  | none => exact absurd hother hsection
  | some kind =>
    cases kind with
    | writing => simp [SharedStore.grants, hwritten hother]
    | reading =>
      obtain ⟨inside, -, hlength, hinside⟩ := h.readers
      have hpos := List.length_pos_of_mem ((hinside other).mpr hother)
      simp [SharedStore.grants, ← hlength, Nat.ne_of_gt hpos]

/-- A client that goes on keeps the locks right. -/
theorem pass (h : Guarded w) (hk : w.stage client = k)
    (hgrants : k.awaits.all w.session.memory.grants = true) (hpasses : k.Passes k') :
    Guarded (w.put client k'
      ⟨host, ({ w.session.memory with store } : SharedStore).pass k k'⟩) := by
  subst hk
  have hself := w.stage_put_self client k'
    ⟨host, ({ w.session.memory with store } : SharedStore).pass (w.stage client) k'⟩
  have hother {other : Nat} (hne : other ≠ client) := w.stage_put_of_ne hne k'
    ⟨host, ({ w.session.memory with store } : SharedStore).pass (w.stage client) k'⟩
  -- what the client waited for is not what another one has
  have hapart {other : Nat} (hne : other ≠ client) (hsection : (w.stage other).section? ≠ none)
      (hsection' : k'.section? ≠ none) :
      (w.stage other).section? = some .reading ∧ k'.section? = some .reading := by
    obtain ⟨hwriting, hreading⟩ := h.free hsection
    have hgranted {lock : Lock} (hawaits : (w.stage client).awaits = some lock) :
        w.session.memory.grants lock = true := by simpa [hawaits] using hgrants
    cases hk' : k'.section? with
    | none => exact absurd hk' hsection'
    | some kind =>
      cases kind with
      | writing =>
        rcases hpasses.writing hk' with hmine | ⟨hawaits, -⟩
        · exact absurd (h.alone hmine hsection) hne
        · exact absurd ((hgranted hawaits).symm.trans hwriting) (by simp)
      | reading =>
        refine ⟨?_, rfl⟩
        cases hother' : (w.stage other).section? with
        | none => exact absurd hother' hsection
        | some kind =>
          cases kind with
          | reading => rfl
          | writing =>
            rcases hpasses.reading hk' with hmine | ⟨hawaits, -⟩
            · exact absurd (h.alone hother' (by rw [hmine]; simp)).symm hne
            · exact absurd ((hgranted hawaits).symm.trans (hreading hother')) (by simp)
  refine ⟨?_, ?_, ?_⟩
  · obtain ⟨inside, hnodup, hlength, hinside⟩ := h.readers
    refine ⟨(if k'.section? = some .reading then [client] else []) ++ inside.erase client,
      ?_, ?_, ?_⟩
    · split
      · exact List.nodup_cons.mpr ⟨hnodup.not_mem_erase, hnodup.erase client⟩
      · exact hnodup.erase client
    · rw [List.length_append, List.length_erase, Crowd.session_put, SharedStore.pass]
      simp only [hinside, hlength]
      split <;> split <;> simp [Nat.add_comm]
    · intro other
      by_cases hne : other = client
      · subst hne
        rw [hself]
        have hnot := hnodup.not_mem_erase (a := other)
        split <;> simp_all
      · rw [hother hne, ← hinside, List.mem_append, List.mem_erase_of_ne hne]
        split <;> simp [hne]
  · intro other hwriting
    by_cases hne : other = client
    · rw [hne, hself] at hwriting
      simp [SharedStore.pass, hwriting]
    · rw [hother hne] at hwriting
      have hclient : (w.stage client).section? ≠ some .writing := fun hclient =>
        hne (h.alone hclient (by rw [hwriting]; simp))
      simp [SharedStore.pass, hclient, h.isWritten hwriting]
  · intro one other hwriting hsection
    by_cases hone : one = client
    · by_cases hne : other = client
      · rw [hone, hne]
      · rw [hone, hself] at hwriting
        rw [hother hne] at hsection
        have hboth := hapart hne hsection (by rw [hwriting]; simp)
        rw [hwriting] at hboth
        cases hboth.2
    · rw [hother hone] at hwriting
      by_cases hne : other = client
      · rw [hne, hself] at hsection
        have hboth := hapart hone (by rw [hwriting]; simp) hsection
        rw [hwriting] at hboth
        cases hboth.1
      · rw [hother hne] at hsection
        exact h.alone hwriting hsection

/-- A client that goes on in no section changes nothing. -/
theorem still (h : Guarded w) (hbefore : (w.stage client).section? = none)
    (hafter : k'.section? = none)
    {t : Session SharedStore} (hreaders : t.memory.readers = w.session.memory.readers)
    (hwritten : t.memory.isWritten = w.session.memory.isWritten) : Guarded (w.put client k' t) := by
  have hsection (other : Nat) : ((w.put client k' t).stage other).section?
      = (w.stage other).section? := by
    by_cases hne : other = client
    · rw [hne, Crowd.stage_put_self, hbefore, hafter]
    · rw [Crowd.stage_put_of_ne _ hne]
  constructor
  · obtain ⟨inside, hnodup, hlength, hinside⟩ := h.readers
    refine ⟨inside, hnodup, hlength.trans hreaders.symm, fun other => ?_⟩
    rw [hsection]
    exact hinside other
  · intro other hwriting
    rw [hsection] at hwriting
    exact hwritten.trans (h.isWritten hwriting)
  · intro one other hwriting hother
    rw [hsection] at hwriting hother
    exact h.alone hwriting hother

end Guarded

end PagedQueue
