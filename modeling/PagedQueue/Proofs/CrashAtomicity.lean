import PagedQueue.Proofs.QueueRefinement

/-!
# Crashes

An operation changes the disk in elementary steps. If the process dies on the way, a first part of
them was made (`Host.Interrupted`), and the queue is loaded from what is on disk then. It holds what
it held before the operation, or what it would have held after it, and nothing else
(`crash_atomic`).

That is so for every queue that was ever loaded where nothing was, and then was called, opened anew
and interrupted any number of times (`Queue.Reachable`): all of them track a ledger
(`Reachable.atRest`), and an operation that takes a queue from one ledger to another never leaves
the messages of the one or of the other on disk.
-/

namespace PagedQueue

open Procedure

/-- What is on disk if the process dies on the way from one host to another: a first part of the
changes was made, at whatever times. -/
def Host.Interrupted (before after : Host) (disk : Disk) : Prop :=
  ∃ changes : List Change, after.journal = changes.reverse ++ before.journal
    ∧ ∃ done : List (Int × Change), done.map Prod.snd <+: changes ∧ disk = before.disk.replay done

/-- What held all the way holds after an interruption. -/
theorem Trail.interrupted {P : Disk → Prop} {before after : Host} {disk : Disk}
    (h : Trail P before after) (halike : ∀ d d', Disk.Alike d d' → P d → P d')
    (hdisk : before.Interrupted after disk) : P disk := by
  obtain ⟨changes, hjournal, done, hdone, rfl⟩ := hdisk
  obtain ⟨changes', hjournal', -, hall⟩ := h.exists_changes halike
  have hreverse : changes.reverse = changes'.reverse :=
    List.append_cancel_right (hjournal.symm.trans hjournal')
  rw [List.reverse_inj.mp hreverse] at hdone
  exact hall done hdone

namespace Queue

/-! ## What is in a queue -/

/-- Reads the message of an entry and where it stands. -/
def readStatus (id : EntryId) : Procedure Queue (Message × Status) := do
  let m ← readMessage id
  return (m, ((← memory).index.entry id).status)

/-- Reads all messages in the queue, the oldest first, and where they stand. -/
def contents : Procedure Queue (List (Message × Status)) := do
  (← memory).index.ordered.values.mapM readStatus

end Queue

/-- The messages in the queue, and where they stand. -/
def Items.contents (items : Items) : List (Message × Status) :=
  (items.filter (·.status.isLive)).map fun i => (i.message, i.status)

theorem Items.contents_eq_filterMap (items : Items) : items.contents
    = (List.range items.length).filterMap fun p =>
        (items[p]?.filter (·.status.isLive)).map fun i => (i.message, i.status) := by
  induction items using List.reverseRecOn with
  | nil => rfl
  | append_singleton items i ih =>
    have hsame (p : Nat) (hp : p ∈ List.range items.length) : (items ++ [i])[p]? = items[p]? :=
      List.getElem?_append_left (List.mem_range.mp hp)
    rw [contents, List.filter_append, List.map_append, ← contents, ih, List.length_append,
      List.length_singleton, List.range_succ, List.filterMap_append]
    congr 1
    · exact List.filterMap_congr fun p hp => by rw [hsame p hp]
    · by_cases hlive : i.status.isLive = true <;> simp [hlive]

namespace Queue

variable {l : Ledger} {layout : Nat → Nat} {s t : Session Queue}

/-- The messages at some positions are read. -/
private theorem mapM_readStatus_ensures (h : Tracks l layout s) (positions : List Nat) :
    ((positions.filterMap fun p => s.memory.index.ordered[p]?).mapM readStatus).Ensures s
      fun found _ => found = positions.filterMap fun p =>
        (l.items[p]?.filter (·.status.isLive)).map fun i => (i.message, i.status) := by
  induction positions generalizing s with
  | nil => exact rfl
  | cons p rest ih =>
    have hholds : MessageIndex.Holds s.memory.index (l.items.held layout) := h.index.holds
    cases hid : s.memory.index.ordered[p]? with
    | none =>
      have hnone : l.items[p]?.filter (·.status.isLive) = none := by
        rw [Option.filter_eq_none_iff]
        intro i hi hlive
        obtain ⟨id, hstands⟩ := hholds.exists_stands hi hlive
        rw [hstands.ordered] at hid
        cases hid
      rw [List.filterMap_cons_none hid, List.filterMap_cons_none (by rw [hnone]; rfl)]
      exact ih h
    | some id =>
      obtain ⟨i, hstands⟩ := hholds.stands hid
      have hsome : l.items[p]?.filter (·.status.isLive) = some i :=
        Option.filter_eq_some_iff.mpr ⟨hstands.item, hstands.isLive⟩
      rw [List.filterMap_cons_some hid, List.filterMap_cons_some (by rw [hsome]; rfl)]
      unfold Ensures readStatus
      simp only [List.mapM_cons, leads_bind, leads_pure, leads_memory]
      refine (readMessage_ensures h hstands.item hstands.entry).leads.mono ?_ fun _ _ => False.elim
      intro _ t ht
      obtain ⟨rfl, ht, hindex⟩ := ht
      have hstatus : (t.memory.index.entry id).status = i.status := by
        rw [hindex, hstands.entry]
        rfl
      -- reading one message leaves the index, so the others stand where they stood
      have hrest := ih ht.tracks
      rw [hindex] at hrest
      refine hrest.mono ?_
      intro found _ heq
      subst heq
      rw [hstatus]

theorem contents_ensures (h : Tracks l layout s) :
    contents.Ensures s fun found _ => found = l.items.contents := by
  have hholds : MessageIndex.Holds s.memory.index (l.items.held layout) := h.index.holds
  have hbound {p : Nat} {e : Entry} (hp : l.items.held layout p = some e) : p < l.items.length := by
    obtain ⟨i, hi, -⟩ := Items.held_eq_some_iff.mp hp
    exact Items.lt_length hi
  unfold contents Ensures
  rw [leads_bind, leads_memory, hholds.values_eq hbound, Items.contents_eq_filterMap]
  exact mapM_readStatus_ensures h _

theorem Tracks.contents_eq (h : Tracks l layout s) :
    (contents.outcome s).1 = .ok l.items.contents := by
  obtain ⟨_, _, hfound, rfl⟩ := (contents_ensures h).outcome
  rw [hfound]

/-! ## Crashes -/

/-- The queues that come up if a queue is loaded where nothing is, and then is called, opened anew
and interrupted, any number of times. What is on disk after an interruption is loaded with the same
directory and pages of the same size. -/
inductive Reachable : Session Queue → Prop
  | loaded {settings : Settings} {host : Host} {queue : Queue} {opened : Session Unit}
      (hvalid : settings.validate = .ok ())
      (hfresh : host.disk.Fresh (Path.ofString settings.directory))
      (hload : (load settings).outcome ⟨host, ()⟩ = (.ok queue, opened)) :
      Reachable ⟨opened.host, queue⟩
  | acted {s : Session Queue} (before : Reachable s) (action : QueueAction)
      (hfits : action.Fits s.memory.recordCount s.memory.payloads.cursor) :
      Reachable (action.run.outcome s).2
  | crashed {s : Session Queue} (before : Reachable s) (action : QueueAction)
      (hfits : action.Fits s.memory.recordCount s.memory.payloads.cursor) {host : Host}
      (hcrash : s.host.Interrupted (action.run.outcome s).2.host host.disk) (policy : Policy)
      {queue : Queue} {opened : Session Unit}
      (hload : (load (policy.onSettings s.memory.settings)).outcome ⟨host, ()⟩
        = (.ok queue, opened)) :
      Reachable ⟨opened.host, queue⟩

/-- What is on disk after an interruption is loaded, with the messages as they were before the
action or as they are after it. -/
theorem load_ensures_of_interrupted (h : AtRest l layout s) (action : QueueAction)
    (hfits : action.Fits l.items.length l.stop) {host : Host}
    (hcrash : s.host.Interrupted (action.run.outcome s).2.host host.disk) (policy : Policy) :
    (load (policy.onSettings s.memory.settings) : Procedure Unit Queue).Ensures ⟨host, ()⟩
      fun q t => ∃ l' layout', AtRest l' layout' ⟨t.host, q⟩
        ∧ (l'.items = l.items
          ∨ l'.items = (action.onLedger s.memory.settings.pageSize l).items) := by
  obtain ⟨layout', hrun⟩ := QueueAction.run_ensures h action hfits
  obtain ⟨-, -, -, hpasses⟩ := (ensures_attempt_iff_outcome _ _).mp hrun
  have hvalid := policy.validate_onSettings h.valid
  -- the messages of one side are on disk, and what is loaded tracks them
  have hloads {items : Items} {layout : Nat → Nat}
      (hkept : Kept s.memory.settings items layout host.disk)
      (hitems : items = l.items ∨ items = (action.onLedger s.memory.settings.pageSize l).items) :
      (load (policy.onSettings s.memory.settings) : Procedure Unit Queue).Ensures ⟨host, ()⟩
        fun q t => ∃ l' layout', AtRest l' layout' ⟨t.host, q⟩ ∧ (l'.items = l.items
          ∨ l'.items = (action.onLedger s.memory.settings.pageSize l).items) := by
    have hkept' : Kept (policy.onSettings s.memory.settings) items layout host.disk := hkept
    refine (load_ensures (s := ⟨host, ()⟩) hvalid hkept').mono ?_
    intro q t ht
    obtain ⟨-, -, htracks, hidle, -⟩ := ht
    exact ⟨_, layout, ⟨htracks, hidle⟩, hitems⟩
  have halike (d d' : Disk) (hd : Disk.Alike d d')
      (hkept : Kept s.memory.settings l.items layout d ∨ Kept s.memory.settings
        (action.onLedger s.memory.settings.pageSize l).items layout' d) :=
    hkept.imp (·.alike hd) (·.alike hd)
  rcases hpasses.interrupted halike hcrash with hkept | hkept
  · exact hloads hkept (.inl rfl)
  · exact hloads hkept (.inr rfl)

/-- A queue that came up in any way tracks a ledger. -/
theorem Reachable.atRest (h : Reachable s) : ∃ l layout, AtRest l layout s := by
  induction h with
  | loaded hvalid hfresh hload =>
    obtain ⟨queue, opened, hopened, -, -, htracks, hidle⟩ :=
      (load_of_fresh (s := ⟨_, ()⟩) hvalid hfresh fun _ => 0).outcome
    cases hload.symm.trans hopened
    exact ⟨_, _, htracks, hidle⟩
  | acted _ action hfits ih =>
    obtain ⟨l, layout, hrest⟩ := ih
    rw [hrest.recordCount_eq, hrest.cursor] at hfits
    obtain ⟨layout', hrun⟩ := QueueAction.run_ensures hrest action hfits
    obtain ⟨-, hafter, -⟩ := (ensures_attempt_iff_outcome _ _).mp hrun
    exact ⟨_, layout', hafter⟩
  | crashed _ action hfits hcrash policy hload ih =>
    obtain ⟨l, layout, hrest⟩ := ih
    rw [hrest.recordCount_eq, hrest.cursor] at hfits
    obtain ⟨queue, opened, hopened, l', layout', hafter, -⟩ :=
      (load_ensures_of_interrupted hrest action hfits hcrash policy).outcome
    cases hload.symm.trans hopened
    exact ⟨l', layout', hafter⟩

end Queue

/-- The process dies in the middle of an action. What is on disk then is loaded, and the messages
are those that were in the queue before the action, or those that are in it after the action. -/
theorem crash_atomic {s : Session Queue} (h : Queue.Reachable s) (action : QueueAction)
    (hfits : action.Fits s.memory.recordCount s.memory.payloads.cursor) (host : Host)
    (hcrash : s.host.Interrupted (action.run.outcome s).2.host host.disk) (policy : Policy) :
    ∃ queue opened messages,
      (Queue.load (policy.onSettings s.memory.settings)).outcome (⟨host, ()⟩ : Session Unit)
        = (.ok queue, opened)
      ∧ (Queue.contents.outcome ⟨opened.host, queue⟩).1 = .ok messages
      ∧ ((Queue.contents.outcome s).1 = .ok messages
        ∨ (Queue.contents.outcome (action.run.outcome s).2).1 = .ok messages) := by
  obtain ⟨l, layout, hrest⟩ := h.atRest
  rw [hrest.recordCount_eq, hrest.cursor] at hfits
  obtain ⟨layout', hrun⟩ := QueueAction.run_ensures hrest action hfits
  obtain ⟨-, hlast, -⟩ := (ensures_attempt_iff_outcome _ _).mp hrun
  obtain ⟨queue, opened, hopened, l', layout'', hafter, hitems⟩ :=
    (Queue.load_ensures_of_interrupted hrest action hfits hcrash policy).outcome
  refine ⟨queue, opened, l'.items.contents, hopened, hafter.contents_eq, ?_⟩
  rcases hitems with hitems | hitems
  · exact .inl (hitems ▸ hrest.contents_eq)
  · exact .inr (hitems ▸ hlast.contents_eq)

/-- The first message is put in, and the process dies before the last change. -/
theorem crash_atomic_first_push :
    ∃ s : Session Queue, Queue.Reachable s ∧ ∃ host : Host,
      s.host.Interrupted ((QueueAction.call (.push ⟨⟨1⟩, .text, [7]⟩)).run.outcome s).2.host
        host.disk
      ∧ ∃ queue opened messages,
        (Queue.load
            { directory := "queue", pageSize := 8, lifetime := 1, durability := .manual }).outcome
            (⟨host, ()⟩ : Session Unit) = (.ok queue, opened)
        ∧ (Queue.contents.outcome ⟨opened.host, queue⟩).1 = .ok messages
        ∧ (messages = [] ∨ messages = [(⟨⟨1⟩, .text, [7]⟩, .new)]) := by
  have hvalid : ({ directory := "queue", pageSize := 8 } : Settings).validate = .ok () := rfl
  obtain ⟨first, hfresh⟩ : ∃ first : Host,
      first.disk.Fresh (Queue.rootOf { directory := "queue", pageSize := 8 }) :=
    ⟨⟨{}, ⟨fun _ => 0, 0⟩, []⟩, Disk.fresh_new _⟩
  obtain ⟨queue, opened, hopened, -, hsettings, htracks, hidle⟩ :=
    (Queue.load_of_fresh (s := ⟨first, ()⟩) hvalid hfresh fun _ => 0).outcome
  have hreach : Queue.Reachable ⟨opened.host, queue⟩ := .loaded hvalid hfresh hopened
  have hrest : Queue.AtRest {} (fun _ => 0) ⟨opened.host, queue⟩ := ⟨htracks, hidle⟩
  have hfits : QueueAction.Fits queue.recordCount queue.payloads.cursor
      (.call (.push ⟨⟨1⟩, .text, [7]⟩)) := by
    rw [hrest.recordCount_eq, hrest.cursor]
    exact ⟨by decide, by decide⟩
  obtain ⟨layout, hrun⟩ := QueueAction.run_ensures hrest (.call (.push ⟨⟨1⟩, .text, [7]⟩))
    ⟨by decide, by decide⟩
  obtain ⟨-, hlast, -, hpasses⟩ := (ensures_attempt_iff_outcome _ _).mp hrun
  -- all changes but the last one are made
  obtain ⟨changes, hjournal, -⟩ := hpasses.exists_changes
    fun _ _ hd hkept => hkept.imp (·.alike hd) (·.alike hd)
  have hcrash : opened.host.Interrupted
      ((QueueAction.call (.push ⟨⟨1⟩, .text, [7]⟩)).run.outcome ⟨opened.host, queue⟩).2.host
      (opened.host.disk.replay (changes.dropLast.map fun change => (0, change))) := by
    refine ⟨changes, hjournal, _, ?_, rfl⟩
    simp only [List.map_map, Function.comp_def, List.map_id']
    exact List.dropLast_prefix changes
  obtain ⟨queue', opened', messages, hload, hmessages, heither⟩ :=
    crash_atomic hreach (.call (.push ⟨⟨1⟩, .text, [7]⟩)) hfits
      ⟨_, ⟨fun _ => 0, 0⟩, []⟩ hcrash ⟨1, .manual, nofun, nofun, nofun⟩
  rw [hsettings] at hload
  refine ⟨_, hreach, _, hcrash, queue', opened', messages, hload, hmessages, ?_⟩
  rcases heither with heither | heither
  · exact .inl (Except.ok.inj (heither.symm.trans hrest.contents_eq))
  · exact .inr (Except.ok.inj (heither.symm.trans hlast.contents_eq))

end PagedQueue
