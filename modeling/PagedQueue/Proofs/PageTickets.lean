import PagedQueue.Proofs.PageLeases

/-!
# Tickets

A client that finds a page missing takes the ticket that is out for its number, or a new one, and
whoever is under a ticket is alone there. But a client that is through with a page withdraws the
ticket that is out for its number, also when others still wait for their turn under it, and who
comes next gets another ticket. So two clients can map a page for one number at once
(`two_clients_map`). They do only if the number had its ticket withdrawn after the one had taken its
ticket and before the other did (`mapping_clients_parted`).
-/

namespace PagedQueue

open Procedure

namespace PageStage

variable {k k' : PageStage} {index ticket : Nat}

/-- The number for which a client maps a page. -/
def mapping? : PageStage → Option Nat
  | .map index _ => some index
  | _ => none

theorem exists_ticket_of_mapping? (h : k.mapping? = some index) :
    ∃ ticket, k = .map index ticket := by
  cases k with
  | map index ticket =>
    cases h
    exact ⟨ticket, rfl⟩
  | _ => cases h

/-- The number of the page that a client is about to map, and the ticket that it took for it. -/
def errand? : PageStage → Option (Nat × Nat)
  | .awaitTurn index ticket | .map index ticket => some (index, ticket)
  | .lookUp index ticket? | .readCount (.look index ticket?) _
    | .raiseCount (.look index ticket?) _ _
  | .leaveLook index ticket? none => ticket?.map (index, ·)
  | _ => none

/-- A client is under the ticket under which it was, or has waited for it. -/
theorem Follows.turn (h : Follows k k') (hk : k'.turn? = some ticket) :
    k.turn? = some ticket ∨ k.awaits = some (.turn ticket) := by
  cases h with
  | takeTurn => exact .inr (congrArg (Option.map Lock.turn) hk)
  -- what is counted or swept is under a ticket or not, before the step and after it
  | @readCount place | @collected place | @recount place | @counted place =>
    cases place <;> exact .inl hk
  | @startSweep swept | @openSweep swept | @examined swept | @passOver swept | @expired swept
    | @collect swept
  | @leaveSweep swept | @closePage swept => cases swept <;> exact .inl hk
  | _ => first | exact .inl hk | cases hk

/-- A client is on the errand on which it was, or has just taken the ticket for it. -/
theorem Follows.errand (h : Follows k k') (hk : k'.errand? = some (index, ticket)) :
    k.errand? = some (index, ticket) ∨ k = .takeTicket index ∧ k' = .awaitTurn index ticket := by
  cases h with
  | takeTicket =>
    cases hk
    exact .inr ⟨rfl, rfl⟩
  | @readCount place | @collected place | @recount place | @counted place =>
    cases place <;> first | exact .inl hk | cases hk
  | _ => first | exact .inl hk | cases hk

end PageStage

namespace PageStore

variable {index ticket : Nat}

/-- The ticket is out for the number. -/
def Out (index ticket : Nat) (s : PageStore) : Prop := s.creating[index]? = some ticket

/-- A client takes the ticket that is out from then on. -/
theorem takeTicket_out (index : Nat) (s : Session PageStore) :
    (takeTicket index).Ensures s fun ticket t => t.memory.Out index ticket := by
  unfold takeTicket Ensures
  simp only [leads_bind, leads_memory]
  split
  next hout => exact hout
  next => exact Std.TreeMap.getElem?_insert_self

/-- A ticket that is out stays the one for its number while others are taken. -/
theorem keeps_takeTicket (other : Nat) : Keeps (Out index ticket) (takeTicket other) := by
  intro s hout
  unfold takeTicket
  simp only [leads_bind, leads_memory]
  split
  next => exact hout
  next hnone =>
    have hne : other ≠ index := by
      rintro rfl
      cases hnone.symm.trans hout
    have hstays : (s.memory.creating.insert other s.memory.tickets)[index]? = some ticket := by
      rw [Std.TreeMap.getElem?_insert, if_neg (mt Nat.compare_eq_eq.mp hne)]
      exact hout
    exact hstays

end PageStore

namespace PageStage

variable {k : PageStage} {index ticket : Nat}

theorem keeps_updatePage_out (id : PageId) (f : Page → Page) :
    Keeps (PageStore.Out index ticket) (update (·.updatePage id f)) :=
  keeps_update fun _ hout => hout

theorem keeps_use_out (id : PageId) (how : PageUse) :
    Keeps (PageStore.Out index ticket) (how.run id) := by
  cases how with
  | read => exact (PageStore.keeps_readPage _ _ _).bind fun _ => keeps_pure _
  | write => exact (PageStore.keeps_writePage_of fun _ hout _ => hout).bind fun _ => keeps_pure _
  | flush | pin | unpin => exact (keeps_updatePage_out _ _).bind fun _ => keeps_pure _

/-- The ticket that is out for a number stays out until it is withdrawn. -/
theorem keeps_out (h : ∀ answer, k ≠ .withdrawTicket index answer) :
    Keeps (PageStore.Out index ticket) k.act := by
  cases k with
  | takeTicket other => exact (PageStore.keeps_takeTicket other).bind fun _ => keeps_pure _
  | withdrawTicket other answer =>
    refine .bind (keeps_update fun m hout => ?_) fun _ => keeps_pure _
    have hne : other ≠ index := by
      rintro rfl
      exact h answer rfl
    refine (Std.TreeMap.getElem?_erase).trans ((if_neg (mt Nat.compare_eq_eq.mp hne)).trans hout)
  | lookUp | openInsert | findLeased => 
    refine keeps_memory.bind fun m => ?_
    split <;> exact keeps_pure _
  | readCount | openSweep => exact keeps_memory.bind fun _ => keeps_pure _
  | raiseCount =>
    exact .ite (keeps_pure _) (keeps_memory.bind fun _ => .ite (keeps_pure _)
      ((keeps_updatePage_out _ _).bind fun _ => keeps_pure _))
  | touchFound =>
    exact keeps_look.bind fun _ => (keeps_updatePage_out _ _).bind fun _ => keeps_pure _
  | touchBack =>
    exact keeps_look.bind fun _ => (keeps_updatePage_out _ _).bind fun _ => keeps_pure _
  | leaveLook index ticket? found? => cases ticket? <;> cases found? <;> exact keeps_pure _
  | map =>
    exact ((PageStore.keeps_map _ _).bind fun _ => keeps_pure _).tryCatch fun _ => keeps_pure _
  | putPage =>
    refine keeps_memory.bind fun _ => .bind (keeps_update fun _ hout => ?_) fun _ => keeps_pure _
    exact hout
  | startSweep => exact keeps_look.bind fun _ => keeps_pure _
  | examine swept now rest =>
    cases rest with
    | nil => exact keeps_pure _
    | cons => exact keeps_memory.bind fun _ => .ite (keeps_pure _) (keeps_pure _)
  | collect =>
    exact keeps_memory.bind fun _ => .ite ((keeps_updatePage_out _ _).bind fun _ => keeps_pure _)
      (keeps_pure _)
  | leaveSweep =>
    refine .bind (keeps_update fun _ hout => ?_) fun _ => keeps_pure _
    exact hout
  | closePages swept ids =>
    cases ids with
    | nil => cases swept <;> exact keeps_pure _
    | cons => exact (keeps_updatePage_out _ _).bind fun _ => keeps_pure _
  | lowerCount => exact (keeps_updatePage_out _ _).bind fun _ => keeps_pure _
  | use id how => exact (keeps_use_out id how).bind fun _ => keeps_pure _
  | awaitTurn | leaveInsert | leaveTurn | leaveRelease | ended => exact keeps_pure _

/-- The ticket that a client takes is out from then on. -/
theorem act_takeTicket (index : Nat) (s : Session PageStore) :
    (PageStage.takeTicket index).act.Ensures s fun k' t =>
      ∀ ticket, k' = .awaitTurn index ticket → t.memory.Out index ticket := by
  refine (leads_bind _ _).mpr ((PageStore.takeTicket_out index s).leads.mono (fun ticket t ht => ?_)
    fun _ _ => False.elim)
  rintro _ ⟨⟩
  exact ht

/-! ## Steps -/

/-- What a step is for the tickets of pages, from one stage and store to others. -/
structure Goes (k : PageStage) (s : SharedStore) (k' : PageStage) (t : SharedStore) : Prop where
  /-- A client is under a ticket under which it was, or nobody. -/
  turn : ∀ {ticket}, k'.turn? = some ticket →
    (k.turn? = some ticket ∨ ticket ∉ s.turns) ∧ ticket ∈ t.turns
  others : ∀ {ticket}, ticket ∈ s.turns → k.turn? ≠ some ticket → ticket ∈ t.turns
  errand : ∀ {index ticket}, k'.errand? = some (index, ticket) → k.errand? = some (index, ticket)
    ∨ k = .takeTicket index ∧ k' = .awaitTurn index ticket
  taken : ∀ {index ticket}, k = .takeTicket index → k' = .awaitTurn index ticket →
    t.store.Out index ticket
  out : ∀ {index ticket}, (∀ answer, k ≠ .withdrawTicket index answer) → s.store.Out index ticket →
    t.store.Out index ticket

variable {k' : PageStage} {s t : SharedStore}

/-- A client that has no ticket any more leaves those of the others alone. -/
theorem goes_of_none (hturn : k'.turn? = none) (herrand : k'.errand? = none)
    (hturns : t.turns = s.turns)
    (hout : ∀ {index ticket}, (∀ answer, k ≠ .withdrawTicket index answer) →
      s.store.Out index ticket →
      t.store.Out index ticket) : Goes k s k' t where
  turn hticket := by cases hturn.symm.trans hticket
  others hticket _ := hturns ▸ hticket
  errand hticket := by cases herrand.symm.trans hticket
  taken _ hk' := by
    subst hk'
    cases herrand
  out := hout

/-- A client that waits changes nothing. -/
theorem goes_refl (hturn : ∀ {ticket}, k.turn? = some ticket → ticket ∈ s.turns)
    (htaken : ∀ index, k ≠ .takeTicket index) : Goes k s k s where
  turn hticket := ⟨.inl hticket, hturn hticket⟩
  others hticket _ := hticket
  errand := .inl
  taken hk := absurd hk (htaken _)
  out _ := id

/-- A client that goes on passes its ticket on to itself. -/
theorem pass_turns (s : SharedStore) (k k' : PageStage) :
    (∀ {ticket}, k'.turn? = some ticket → ticket ∈ (s.pass k k').turns)
      ∧ ∀ {ticket}, ticket ∈ s.turns → k.turn? ≠ some ticket → ticket ∈ (s.pass k k').turns := by
  refine ⟨fun hk' => List.mem_append_left _
    (by simp [hk']), fun hticket hk => List.mem_append_right _ ?_⟩
  cases hturn : k.turn? with
  | none => exact hticket
  | some mine =>
    refine (List.mem_erase_of_ne ?_).mpr hticket
    rintro rfl
    exact hk hturn

theorem advance_leads_on (k : PageStage) (s : Session SharedStore)
    (hturn : ∀ {ticket}, k.turn? = some ticket → ticket ∈ s.memory.turns) :
    k.advance.Leads s (fun k' t => Goes k s.memory k' t.memory)
      fun fault t => Goes k s.memory (.ended (.error fault)) t.memory := by
  refine advance_leads (fun hblocked => ?_) fun hgrants => ?_
  · -- whoever takes a ticket waits for nothing
    refine goes_refl hturn fun index hk => ?_
    rw [hk] at hblocked
    cases hblocked
  · refine ((leads_answer k.act _).and (act_follows k _)).mono
      (fun k' t ht => ?_) fun fault t ht => ?_
    · obtain ⟨hrun, hfollows⟩ := ht
      obtain ⟨hmine, hothers⟩ := pass_turns { s.memory with store := t.memory } k k'
      refine { turn := fun hticket =>
        ⟨(hfollows.turn hticket).imp_right fun hawaits => ?_, hmine hticket⟩
               others := hothers
               errand := hfollows.errand
               taken := fun hk hk' => ?_
               out := fun hk hout => (keeps_out hk ⟨_, _⟩ hout).of_ok (outcome_ok_iff.mpr hrun) }
      · -- the ticket for which the client waited was granted, so nobody is under it
        rw [hawaits] at hgrants
        exact of_decide_eq_true hgrants
      · subst hk hk'
        exact Leads.of_ok (act_takeTicket _ _) (outcome_ok_iff.mpr hrun) _ rfl
    · obtain ⟨hrun, -⟩ := ht
      exact goes_of_none rfl rfl rfl fun hk hout =>
        (keeps_out hk ⟨_, _⟩ hout).of_error (outcome_error_iff.mpr hrun)

end PageStage

/-! ## Runs -/

/-- A client takes a ticket for a number. -/
abbrev taking (client index ticket : Nat) : Event PageStage :=
  ⟨client, .takeTicket index, .awaitTurn index ticket⟩

/-- A client withdraws the ticket that is out for a number. -/
def Event.Withdraws (index : Nat) (e : Event PageStage) : Prop :=
  ∃ answer, e.before = .withdrawTicket index answer

variable {trace past between rest : List (Event PageStage)} {w v : Crowd SharedStore PageStage}
  {client other index ticket ticket' : Nat}

/-- The tickets under which clients are, and what is known of those that were taken on the way. -/
structure Ticketed (trace : List (Event PageStage)) (w : Crowd SharedStore PageStage) : Prop where
  apart : w.Apart PageStage.turn?
  turns : ∀ {client ticket}, (w.stage client).turn? = some ticket → ticket ∈ w.session.memory.turns
  taken : ∀ {client index ticket}, (w.stage client).errand? = some (index, ticket) →
    taking client index ticket ∈ trace
  /-- A ticket that was taken is out as long as none is withdrawn for its number. -/
  out : ∀ {past after client index ticket}, trace = past ++ taking client index ticket :: after →
    (∀ e ∈ after, ¬ e.Withdraws index) → w.session.memory.store.Out index ticket

namespace Ticketed

theorem goOn (h : Ticketed trace w) {k' : PageStage} {t : Session SharedStore}
    (hgoes : PageStage.Goes (w.stage client) w.session.memory k' t.memory) :
    Ticketed (trace ++ [⟨client, w.stage client, k'⟩]) (w.put client k' t) where
  apart := h.apart.put fun hk' => (hgoes.turn hk').1.imp_right fun hfree other hother =>
    hfree (h.turns hother)
  turns {one ticket} hone := by
    by_cases hne : one = client
    · rw [hne, Crowd.stage_put_self] at hone
      exact (hgoes.turn hone).2
    · rw [Crowd.stage_put_of_ne _ hne] at hone
      exact hgoes.others (h.turns hone) fun hmine => hne (h.apart one client ticket hone hmine)
  taken {one index ticket} hone := by
    by_cases hne : one = client
    · rw [hne, Crowd.stage_put_self] at hone
      rw [hne]
      rcases hgoes.errand hone with hmine | ⟨hk, rfl⟩
      · exact List.mem_append_left _ (h.taken hmine)
      · rw [hk]
        exact List.mem_append_right _ (List.mem_singleton_self _)
    · rw [Crowd.stage_put_of_ne _ hne] at hone
      exact List.mem_append_left _ (h.taken hone)
  out {past after one index ticket} htrace hafter := by
    -- the ticket was taken in this step, or before it
    rcases List.eq_nil_or_concat after with rfl | ⟨after, last, rfl⟩
    · obtain ⟨rfl, heq⟩ := List.append_inj' htrace rfl
      injection (List.cons.inj heq).1 with _ hk hk'
      exact hgoes.taken hk hk'
    · rw [List.concat_eq_append, ← List.cons_append, ← List.append_assoc] at htrace
      obtain ⟨rfl, heq⟩ := List.append_inj' htrace rfl
      cases heq
      rw [List.concat_eq_append, List.forall_mem_append] at hafter
      refine hgoes.out (fun answer hk => ?_) (h.out rfl hafter.1)
      exact hafter.2 _ (List.mem_singleton_self _) ⟨answer, hk⟩

/-- A call begins without a ticket. -/
theorem step {e : Event PageStage} (h : Ticketed trace w) (hstep : PageStore.sharing.Step w e v) :
    Ticketed (trace ++ [e]) v := by
  refine hstep.elim (fun e v => Ticketed (trace ++ [e]) v)
    (fun client call _ => ?_) fun client => ?_
  · exact h.goOn
      (PageStage.goes_of_none (by cases call <;> rfl) (by cases call <;> rfl) rfl fun _ => id)
  · exact (PageStage.advance_leads_on _ _ h.turns).mono (fun _ _ => h.goOn) fun _ _ => h.goOn

theorem of_run {host : Host} {store : PageStore}
    (h : PageStore.sharing.Run (PageStore.unused host store) trace w) : Ticketed trace w := by
  induction h with
  | rest =>
    exact {
      apart := fun _ _ _ hone => by cases hone
      turns := fun hone => by cases hone
      taken := fun hone => by cases hone
      out := fun htrace => absurd htrace.symm
        (List.append_ne_nil_of_right_ne_nil _ (List.cons_ne_nil _ _)) }
  | step _ hstep ih => exact ih.step hstep

end Ticketed

/-- Between two tickets that were taken for one number one was withdrawn for it. -/
theorem withdrawn_between {host : Host} {store : PageStore}
    (h : PageStore.sharing.Run (PageStore.unused host store)
      (past ++ taking client index ticket :: (between ++ taking other index ticket' :: rest)) w)
    (hne : ticket ≠ ticket') : ∃ e ∈ between, e.Withdraws index := by
  by_contra hnone
  have hfree : ∀ e ∈ between ++ [taking other index ticket'], ¬ e.Withdraws index := by
    intro e he hwithdraws
    rcases List.mem_append.mp he with hbetween | hlast
    · exact hnone ⟨e, hbetween, hwithdraws⟩
    · obtain ⟨answer, hanswer⟩ := hwithdraws
      rw [List.mem_singleton.mp hlast] at hanswer
      cases hanswer
  rw [← List.cons_append, ← List.append_assoc] at h
  -- if none was withdrawn, both tickets were out when the second one was taken
  obtain ⟨v, v', hbefore, hstep, -⟩ := h.split
  have hticketed := Ticketed.of_run (hbefore.step hstep)
  have hlast := hticketed.out rfl fun e he => absurd he List.not_mem_nil
  have hfirst := hticketed.out (List.append_assoc ..) hfree
  exact hne (Option.some.inj (hfirst.symm.trans hlast))

/-- Of two events that happened one is the first. -/
theorem exists_first {a b : Event PageStage} (ha : a ∈ trace) (hb : b ∈ trace) (hne : a ≠ b) :
    ∃ past between rest, trace = past ++ a :: (between ++ b :: rest)
      ∨ trace = past ++ b :: (between ++ a :: rest) := by
  obtain ⟨past, rest, rfl⟩ := List.append_of_mem ha
  rcases List.mem_append.mp hb with hpast | hrest
  · obtain ⟨past, between, rfl⟩ := List.append_of_mem hpast
    exact ⟨past, between, rest, .inr (by simp)⟩
  · obtain ⟨between, rest, rfl⟩ := List.append_of_mem (List.mem_of_ne_of_mem (Ne.symm hne) hrest)
    exact ⟨past, between, rest, .inl rfl⟩

open PageStore in
/-- Clients share a page store in any way, with pages that are let go and others that cannot be
mapped. If two of them map a page for one number at the same time, they do so under different
tickets, and after the one had taken its ticket and before the other did, the ticket that was out
for the number was withdrawn. -/
theorem mapping_clients_parted {host : Host} {store : PageStore}
    (hrun : sharing.Run (unused host store) trace w)
    (hne : client ≠ other) (hclient : (w.stage client).mapping? = some index)
    (hother : (w.stage other).mapping? = some index) :
    ∃ past between rest first second ticket ticket',
      trace = past ++ taking first index ticket :: (between ++ taking second index ticket' :: rest)
      ∧ (first = client ∧ second = other ∨ first = other ∧ second = client)
      ∧ w.stage first = .map index ticket ∧ w.stage second = .map index ticket' ∧ ticket ≠ ticket'
      ∧ ∃ e ∈ between, e.Withdraws index := by
  have hticketed := Ticketed.of_run hrun
  obtain ⟨ticket, hmine⟩ := PageStage.exists_ticket_of_mapping? hclient
  obtain ⟨ticket', hyours⟩ := PageStage.exists_ticket_of_mapping? hother
  have hparted : ticket ≠ ticket' := by
    rintro rfl
    exact hne (hticketed.apart client other ticket (by rw [hmine]; rfl) (by rw [hyours]; rfl))
  have htaken : taking client index ticket ∈ trace := hticketed.taken (by rw [hmine]; rfl)
  have htaken' : taking other index ticket' ∈ trace := hticketed.taken (by rw [hyours]; rfl)
  have hevents : taking client index ticket ≠ taking other index ticket' := fun heq =>
    hne (congrArg Event.client heq)
  obtain ⟨past, between, rest, rfl | rfl⟩ := exists_first htaken htaken' hevents
  · exact ⟨past, between, rest, client, other, ticket, ticket', rfl, .inl ⟨rfl, rfl⟩, hmine, hyours,
      hparted, withdrawn_between hrun hparted⟩
  · exact ⟨past, between, rest, other, client, ticket', ticket, rfl, .inr ⟨rfl, rfl⟩, hyours, hmine,
      hparted.symm, withdrawn_between hrun hparted.symm⟩

/-! A page cannot be mapped, as a directory stands in its place. While one client finds that out
another one waits under the same ticket, and goes on to map the page. The first one withdraws the
ticket, and a third one takes a new one. -/

namespace TicketRun

/-- A directory stands in the place of the first page. -/
def obstructed : Host :=
  LeaseRun.opening.2.host.perform (.makeDirectory (Disk.pagePath ["pages"] 0))

/-- What the clients do, one after the other. -/
def acts : List (Nat × PageCall) :=
  List.replicate 4 (0, .acquire 0) ++ List.replicate 4 (1, .acquire 0)
    ++ List.replicate 5 (0, .acquire 0)
    ++ List.replicate 3 (1, .acquire 0) ++ [(0, .acquire 0)] ++ List.replicate 7 (2, .acquire 0)

/-- What happens, and how the clients are left. -/
def mapping (store : PageStore) : List (Event PageStage) × Crowd SharedStore PageStage :=
  PageStore.sharing.perform (PageStore.unused obstructed store) acts

theorem exists_mapping : ∃ store, LeaseRun.opening.1 = .ok store
    ∧ ((mapping store).2.stage 1).mapping? = some 0
    ∧ ((mapping store).2.stage 2).mapping? = some 0 := by
  have hdecide : LeaseRun.opening.1.toOption.any (fun store =>
      decide (((mapping store).2.stage 1).mapping? = some 0
        ∧ ((mapping store).2.stage 2).mapping? = some 0))
        = true := by decide +kernel
  obtain ⟨store, hstore, hboth⟩ := exists_ok_of_any hdecide
  exact ⟨store, hstore, of_decide_eq_true hboth⟩

end TicketRun

open PageStore TicketRun in
/-- The one who found that the page cannot be mapped has withdrawn the ticket in between. -/
theorem mapping_clients_parted_obstructed : ∃ store, LeaseRun.opening.1 = .ok store
    ∧ ∃ past between rest first second ticket ticket',
      (mapping store).1
        = past ++ taking first 0 ticket :: (between ++ taking second 0 ticket' :: rest)
      ∧ ticket ≠ ticket' ∧ ∃ e ∈ between, e.Withdraws 0 := by
  obtain ⟨store, hopen, hone, htwo⟩ := exists_mapping
  have hrun : sharing.Run (unused obstructed store) (mapping store).1 (mapping store).2 :=
    sharing.run_perform _ acts
  obtain ⟨past, between, rest, first, second, ticket, ticket', htrace, -, -, -, hparted,
    hwithdrawn⟩ :=
    mapping_clients_parted hrun (show 1 ≠ 2 by decide) hone htwo
  exact ⟨store, hopen, past, between, rest, first, second, ticket, ticket', htrace, hparted,
    hwithdrawn⟩

open PageStore TicketRun in
/-- Two clients map a page for one number at the same time. -/
theorem two_clients_map : ∃ store trace w, LeaseRun.opening.1 = .ok store
    ∧ sharing.Run (unused obstructed store) trace w
    ∧ ∃ client other, client ≠ other ∧ (w.stage client).mapping? = some 0
      ∧ (w.stage other).mapping? = some 0 := by
  obtain ⟨store, hopen, hone, htwo⟩ := exists_mapping
  exact ⟨store, _, _, hopen, sharing.run_perform _ acts, 1, 2, by decide, hone, htwo⟩

end PagedQueue
