import PagedQueue.Proofs.LoadedQueues
import PagedQueue.Proofs.ReloadedPlans

/-!
# Queues that are hampered

A queue is loaded where nothing is and called, while directories appear and go in the places of its
pages, and files of its pages, be they there or not, are refused for a while (`Disk.Obstructed`). A
push that needs such a page and has not mapped it fails, at its payload, at its record or at the
count, and its message is lost (`Queue.Hampered`). The queue serves a plan all the way: what is in
it are the messages of the pushes that went through, as if the others had never been made
(`Queue.Hampered.serving`).
-/

namespace PagedQueue

open Procedure
open Record (place)

/-! ## Obstacles -/

namespace Disk

/-- Directories have appeared or gone in the places of pages of a queue, where no file is, and other
files are refused than before. -/
structure Obstructed (root : Path) (d d' : Disk) : Prop where
  files : d'.files = d.files
  file_iff : ∀ path id, d'.node? path = some (.file id) ↔ d.node? path = some (.file id)
  elsewhere : ∀ path, (∀ index, path ≠ pagePath (root ++ ["meta"]) index
    ∧ path ≠ pagePath (root ++ ["data"]) index) → d'.node? path = d.node? path

namespace Obstructed

variable {root directory : Path} {d d' : Disk} {index : Nat}

theorem fileAt?_eq (h : Obstructed root d d') (path : Path) : d'.fileAt? path = d.fileAt? path := by
  by_cases hfile : ∃ id, d.node? path = some (.file id)
  · obtain ⟨id, hid⟩ := hfile
    rw [fileAt?_of_file hid, fileAt?_of_file ((h.file_iff path id).mpr hid), file?, file?, h.files]
  · have hnot : ∀ id, d.node? path ≠ some (.file id) := fun id hid => hfile ⟨id, hid⟩
    rw [fileAt?_of_not_file hnot, fileAt?_of_not_file fun id => mt (h.file_iff path id).mp
      (hnot id)]

theorem space_eq (h : Obstructed root d d') (directory : Path) (pageSize : Nat) :
    d'.space directory pageSize = d.space directory pageSize := by
  funext o
  rw [space, h.fileAt?_eq, space]

theorem hasPage (h : Obstructed root d d') (hpage : d.HasPage directory index) :
    d'.HasPage directory index :=
  hpage.imp fun id => (h.file_iff _ id).mpr

/-- The directories themselves are in the place of no page. -/
theorem grounds (h : Obstructed root d d') (hd : d.Grounds root) : d'.Grounds root where
  sound :=
    { lt_size := fun hid => h.files ▸ hd.sound.lt_size ((h.file_iff _ _).mp hid)
      injective :=
      fun hid hid' => hd.sound.injective ((h.file_iff _ _).mp hid) ((h.file_iff _ _).mp hid') }
  ways {p} hp := by
    have hlength : p.length ≤ root.length + 1 := by
      rcases hp with hp | hp
      all_goals exact Nat.le_trans hp.length_le (Nat.le_of_eq (by simp))
    have hapart (name : String) (index : Nat) : p ≠ pagePath (root ++ [name]) index := by
      rintro rfl
      simp [pagePath] at hlength
    exact (h.elsewhere _ fun index => ⟨hapart _ index, hapart _ index⟩).trans (hd.ways hp)

theorem sizeOf_eq (h : Obstructed root d d') (node : Node) : d'.sizeOf node = d.sizeOf node := by
  cases node with
  | directory => rfl
  | file id => rw [sizeOf, file?, h.files, sizeOf, file?]

theorem coherent (h : Obstructed root d d') {store : PageStore} (hc : store.Coherent d) :
    store.Coherent d' where
  lt_size := hc.lt_size
  shows hid :=
    have hshows := hc.shows hid
    { hshows with
      node := (h.file_iff _ _).mpr hshows.node
      sizeOf_le := (h.sizeOf_eq _).symm ▸ hshows.sizeOf_le }

/-- Any files may be refused. -/
theorem refuse (root : Path) (d : Disk) (refused : List Path) :
    Obstructed root d { d with refused } where
  files := rfl
  file_iff _ _ := .rfl
  elsewhere _ _ := rfl

/-- A directory appears in the place of a page that is not there. -/
theorem makeDirectory {name : String} (hname : name = "meta" ∨ name = "data")
    (hfree : d.node? (pagePath (root ++ [name]) index) = none) (now : Int) :
    Obstructed root d ((Change.makeDirectory (pagePath (root ++ [name]) index)).apply now d) where
  files := rfl
  file_iff path id := by
    rw [Change.node?_makeDirectory]
    split
    next heq =>
      rw [← heq, hfree]
      simp
    next => rfl
  elsewhere path hpath := by
    rw [Change.node?_makeDirectory, if_neg]
    intro heq
    rcases hname with rfl | rfl
    · exact (hpath index).1 heq.symm
    · exact (hpath index).2 heq.symm

/-- A directory goes that is in the place of a page. -/
theorem unlink {name : String} (hname : name = "meta" ∨ name = "data")
    (hthere : d.node? (pagePath (root ++ [name]) index) = some .directory) (now : Int) :
    Obstructed root d ((Change.unlink (pagePath (root ++ [name]) index)).apply now d) where
  files := rfl
  file_iff path id := by
    rw [Change.node?_unlink]
    split
    next heq =>
      rw [← heq, hthere]
      simp
    next => rfl
  elsewhere path hpath := by
    rw [Change.node?_unlink, if_neg]
    intro heq
    rcases hname with rfl | rfl
    · exact (hpath index).1 heq.symm
    · exact (hpath index).2 heq.symm

end Obstructed

end Disk

namespace Queue

variable {s : Session Queue} {disk : Disk}

/-- The queue over another disk. -/
def withDisk (s : Session Queue) (disk : Disk) : Session Queue := ⟨{ s.host with disk }, s.memory⟩

theorem Mounted.obstructed (h : Mounted s)
    (hd : s.host.disk.Obstructed (rootOf s.memory.settings) disk) :
    Mounted (withDisk s disk) :=
  { h with
    grounds := hd.grounds h.grounds
    recordCoherent := hd.coherent h.recordCoherent
    payloadCoherent := hd.coherent h.payloadCoherent }

end Queue

namespace Plan

variable {plan : Plan} {entered : Nat → Bool} {lost : List (Message × Fault)} {s t : Session Queue}
  {disk : Disk}

/-- Obstacles change no byte. -/
theorem Kept.obstructed (h : plan.Kept s)
    (hd : s.host.disk.Obstructed (Queue.rootOf s.memory.settings) disk) :
    plan.Kept (Queue.withDisk s disk) := by
  have hrecords : Queue.recordBytes (Queue.withDisk s disk) = Queue.recordBytes s := hd.space_eq _ _
  have hpayloads : Queue.payloadBytes (Queue.withDisk s disk) = Queue.payloadBytes s :=
    hd.space_eq _ _
  exact { h with
    mounted := h.mounted.obstructed hd
    placed := fun hp => by
      obtain ⟨hstop, hplanned, hsettled⟩ := h.placed hp
      exact ⟨hstop, hplanned, fun o ho => hpayloads ▸ hsettled o ho⟩
    begun := fun hp => hrecords ▸ h.begun hp
    blank := fun o ho => hrecords ▸ h.blank o ho
    count := hrecords ▸ h.count
    page := h.page.imp fun o ho => ⟨ho.1, hd.hasPage ho.2⟩ }

/-- Obstacles remove no page that is there. -/
theorem Serves.obstructed (h : plan.Serves entered lost s)
    (hd : s.host.disk.Obstructed (Queue.rootOf s.memory.settings) disk) :
    plan.Serves entered lost (Queue.withDisk s disk) :=
  { h with
    toKept := h.toKept.obstructed hd
    countPage := fun o ho => hd.hasPage (h.countPage o ho)
    recordPage := fun hentered o ho => hd.hasPage (h.recordPage hentered o ho)
    payloadPage := fun hp o ho => hd.hasPage (h.payloadPage hp o ho) }

end Plan

/-! ## Calls -/

theorem Ledger.items_move_findIdx? (l : Ledger) (wanted : Item → Bool) (status : Status) :
    (l.move (l.items.findIdx? wanted) status).items = l.items.moveFirst wanted status := by
  unfold move Items.moveFirst
  split <;> rfl

namespace Queue

open Plan (Serves)

/-- What is in the queue is what is in the ledger, and all else that was begun was lost. -/
structure Serving (l : Ledger) (lost : List (Message × Fault)) (s : Session Queue) : Prop where
  plan : ∃ (plan : Plan) (entered : Nat → Bool), plan.Serves entered lost s
    ∧ (plan.booked entered).live = l.items.live
  wellFormed : l.items.WellFormed

variable {l : Ledger} {lost : List (Message × Fault)} {s t : Session Queue}

namespace Serving

/-- A call that moves a message moves it in the ledger as well. -/
private theorem of_move (h : Serving l lost s) {c : QueueCall} {k : StatusCall} {pageSize : Nat}
    (hrun : c.run = do return .message (← k.run)) (hmoves : c.mayChange = true)
    (hledger : (c.onLedger pageSize l).items = l.items.moveFirst k.wants k.kind.target) :
    c.run.Leads s (fun _ t => Serving (c.onLedger pageSize l) lost t)
      fun _ t => c.mayChange = false → Serving (c.onLedger pageSize l) lost t := by
  obtain ⟨⟨plan, entered, hplan, hlive⟩, hwell⟩ := h
  rw [hrun, hmoves]
  simp only [leads_bind, leads_pure]
  refine (hplan.run_leads k).mono ?_ fun _ _ _ hfalse => by cases hfalse
  intro _ t ht
  obtain ⟨plan', hplan', hbooked⟩ := ht
  have hwanted (i : Item) (hi : k.wants i = true) := StatusCall.isLive_of_wants hi
  refine ⟨⟨plan', entered, hplan', ?_⟩, hledger ▸ hwell.moveFirst hwanted k.kind.target_ne_vacant⟩
  rw [hbooked, Items.live_moveFirst hwanted, hlive, ← Items.live_moveFirst hwanted, hledger]

/-- A call that asks for something changes nothing, whether it fails or not, and one that moves a
message and answers moves it in the ledger as well. -/
theorem run_leads (h : Serving l lost s) (c : QueueCall) (hc : c.asksOrMoves = true)
    (pageSize : Nat) :
    c.run.Leads s (fun _ t => Serving (c.onLedger pageSize l) lost t)
      fun _ t => c.mayChange = false → Serving (c.onLedger pageSize l) lost t := by
  obtain ⟨plan, entered, hplan, hlive⟩ := h.plan
  have hwell := h.wellFormed
  have hopen := hplan.mounted.isOpen
  have hrecords := hplan.mounted.recordCoherent
  have hpayloads := hplan.mounted.payloadCoherent
  have hkept {t : Session Queue} (ht : plan.Serves entered lost t) : Serving l lost t :=
    ⟨⟨plan, entered, ht, hlive⟩, hwell⟩
  have hmoved (uuid : Uuid) (k : Move) : (l.move (l.items.at? uuid k.source) k.target).items
      = l.items.moveFirst (StatusCall.wants (.move k uuid))
      (StatusCall.kind (.move k uuid)).target := by
    rw [hwell.at?_eq_findIdx? k.isLive_source]
    exact l.items_move_findIdx? _ _
  cases c with
  | push | recover | startEmpty => cases hc
  | get uuid =>
    unfold QueueCall.run Queue.get?
    simp only [leads_bind, leads_pure]
    rw [leads_ensureOpen hopen, leads_memory]
    exact (hplan.readMessage?_leads fun id hid =>
      ((MessageIndex.Holds.find?_eq_some_iff hplan.holds).mp hid).imp fun _ hp => hp.1).mono
        (fun _ _ => hkept) fun _ _ ht _ => hkept ht
  | peek =>
    unfold QueueCall.run Queue.peek?
    simp only [leads_bind, leads_pure]
    rw [leads_ensureOpen hopen, leads_memory]
    exact (hplan.readMessage?_leads fun id hid =>
      MessageIndex.exists_position_of_oldestNew? hid).mono
        (fun _ _ => hkept) fun _ _ ht _ => hkept ht
  | lock uuid => exact h.of_move (k := .move .lock uuid) rfl rfl (hmoved uuid .lock)
  | finish uuid => exact h.of_move (k := .move .finish uuid) rfl rfl (hmoved uuid .finish)
  | rollback uuid => exact h.of_move (k := .move .rollback uuid) rfl rfl (hmoved uuid .rollback)
  | pop => exact h.of_move (k := .pop) rfl rfl (l.items_move_findIdx? _ _)
  | status | size | recordCount => exact hkept hplan
  | flush =>
    unfold QueueCall.run Queue.flush
    simp only [leads_bind, leads_pure]
    rw [leads_ensureOpen hopen]
    exact (flushFiles_quiet hrecords hpayloads).leads.mono (fun _ _ hq => hkept (hplan.of_quiet hq))
      fun _ _ => False.elim
  | checkpoint =>
    unfold QueueCall.run
    simp only [leads_bind, leads_pure]
    exact (checkpoint_quiet hrecords hpayloads hplan.mounted.grounds.sound).leads.mono
      (fun _ _ hq => hkept (hplan.of_quiet hq)) fun _ _ => False.elim

/-- A push that goes through puts the message in, if it is new; one that fails loses it, unless the
message itself was refused. -/
theorem push_leads (h : Serving l lost s) (m : Message) (hnext : s.memory.index.next < 0x7FFFFFFF)
    (hcursor : s.memory.payloads.cursor < 0x8000000000000000) :
    (push m).Leads s (fun isNew t => Serving (if isNew then l.enter m else l) lost t)
      fun fault t => (m.uuid ≠ Uuid.nil → m.size ≤ maxPayload → Serving l (lost ++ [(m, fault)]) t)
        ∧ (m.uuid = Uuid.nil ∨ maxPayload < m.size → Serving l lost t) := by
  obtain ⟨⟨plan, entered, hplan, hlive⟩, hwell⟩ := h
  have hcount : s.memory.index.count ≤ s.memory.index.next := hplan.next_eq ▸ hplan.count_le
  have hbelow (hshort : m.size ≤ maxPayload) :
      s.memory.payloads.cursor + m.size ≤ 0x10000000000000000 := by
    rw [maxPayload] at hshort
    omega
  refine (push_writes hplan.mounted m hcount (by omega) hbelow).mono ?_ ?_
  · intro isNew t ht
    rcases ht with ⟨rfl, hnamed, hshort, hnew, hput⟩ | ⟨rfl, hhost, hmemory⟩
    · obtain ⟨plan', entered', hserves, hbooked⟩ := hplan.put hnext hcursor hnamed hshort hnew hput
      have hfind : l.items.find? m.uuid = none := by
        rw [Items.find?_eq_none_iff_live, ← hlive, ← Items.find?_eq_none_iff_live]
        exact hplan.find?_eq_none hnew
      refine ⟨⟨_, _, hserves, ?_⟩, hwell.push hnamed hshort hfind⟩
      rw [hbooked, Items.live_append, hlive, ← Items.live_append]
      rfl
    · obtain ⟨host, memory⟩ := t
      simp only at hhost hmemory
      subst hhost
      refine ⟨⟨plan, entered, ?_, hlive⟩, hwell⟩
      rw [hmemory]
      exact hplan.quiet (hplan.mounted.withIndex rfl) rfl rfl
  · intro fault t ht
    have hmore : ∀ x ∈ lost, x ∈ lost ++ [(m, fault)] := fun _ => List.mem_append_left _
    rcases ht with rfl | ⟨hnamed, hshort, -, hbroken⟩
    · exact ⟨fun _ _ => ⟨⟨plan, entered, hplan.mono hmore, hlive⟩, hwell⟩,
        fun _ => ⟨⟨plan, entered, hplan, hlive⟩, hwell⟩⟩
    · refine ⟨fun _ _ => ?_, fun hrefused => ?_⟩
      · obtain ⟨plan', hplan', hlive'⟩ := hplan.broken hnext hcursor hnamed hshort hbroken
        exact ⟨⟨plan', entered, hplan', hlive'.trans hlive⟩, hwell⟩
      · rcases hrefused with hnil | hlong
        · exact absurd hnil hnamed
        · exact absurd hshort (Nat.not_le_of_lt hlong)

/-- A queue that was loaded where nothing was serves nothing. -/
theorem of_unused {layout : Nat → Nat} (h : Tracks {} layout s) (hagrees : Agrees s)
    (hblank : recordBytes s = ByteSpace.blank) : Serving {} [] s := by
  have hnone (q : Nat → Nat) : Items.held [] q = fun _ => none :=
    funext fun _ => Items.held_eq_none (Nat.zero_le _)
  have hholds : s.memory.index.Holds (Items.held [] layout) := h.index.holds
  have hcount : s.memory.index.count = 0 := h.index.count_eq
  refine ⟨⟨⟨payloadBytes s, [], fun _ => 0, fun _ => 0⟩, fun _ => false, {
    toKept := kept_of_blank h hblank
    holds := (hnone _).symm ▸ (hnone layout) ▸ hholds
    wellFormed := .nil
    planned := nofun
    whole := nofun
    covered := nofun
    last := fun hp => by
      rw [hcount] at hp
      cases hp
    lost_of_not_entered := fun hp => by cases hp
    countPage := fun o ho => hagrees.recordPage o (by
      have hlt := ho.2
      simp only [place]
      omega)
    recordPage := nofun
    payloadPage := fun hp => by cases hp
    layout_lt := fun _ hp => absurd hp (Nat.not_lt_zero _)
    length_lt := show 0 < 0x80000000 by decide }, rfl⟩, .nil⟩

end Serving

/-! ## Runs -/

/-- What was done with a queue while obstacles came and went: the messages of a ledger were put in
and moved, and some were lost, each with the fault of its push. Calls that ask for something may
fail as well, and those that move messages have answered. -/
inductive Hampered (first : Session Queue) : Ledger → List (Message × Fault) → Session Queue → Prop
  | loaded : Hampered first {} [] first
  | obstructed {l : Ledger} {lost : List (Message × Fault)} {s : Session Queue} {disk : Disk}
      (before : Hampered first l lost s)
      (hdisk : s.host.disk.Obstructed (rootOf s.memory.settings) disk) :
      Hampered first l lost (withDisk s disk)
  | pushed {l : Ledger} {lost : List (Message × Fault)} {s : Session Queue} {isNew : Bool}
      (before : Hampered first l lost s) (m : Message) (hnext : s.memory.index.next < 0x7FFFFFFF)
      (hcursor : s.memory.payloads.cursor < 0x8000000000000000)
      (hanswer : ((push m).outcome s).1 = .ok isNew) :
      Hampered first (if isNew then l.enter m else l) lost ((push m).outcome s).2
  | failed {l : Ledger} {lost : List (Message × Fault)} {s : Session Queue} {fault : Fault}
      (before : Hampered first l lost s) (m : Message) (hnext : s.memory.index.next < 0x7FFFFFFF)
      (hcursor : s.memory.payloads.cursor < 0x8000000000000000) (hnamed : m.uuid ≠ Uuid.nil)
      (hshort : m.size ≤ maxPayload) (hanswer : ((push m).outcome s).1 = .error fault) :
      Hampered first l (lost ++ [(m, fault)]) ((push m).outcome s).2
  | refused {l : Ledger} {lost : List (Message × Fault)} {s : Session Queue} {fault : Fault}
      (before : Hampered first l lost s) (m : Message) (hnext : s.memory.index.next < 0x7FFFFFFF)
      (hcursor : s.memory.payloads.cursor < 0x8000000000000000)
      (hrefused : m.uuid = Uuid.nil ∨ maxPayload < m.size)
      (hanswer : ((push m).outcome s).1 = .error fault) :
      Hampered first l lost ((push m).outcome s).2
  | called {l : Ledger} {lost : List (Message × Fault)} {s : Session Queue}
      (before : Hampered first l lost s) (c : QueueCall) (hc : c.asksOrMoves = true)
      (hanswer : c.mayChange = true → ∃ answer, (c.run.outcome s).1 = .ok answer) :
      Hampered first (c.onLedger s.memory.settings.pageSize l) lost (c.run.outcome s).2

/-- Whatever is done, the queue serves a plan. -/
theorem Hampered.serving {first : Session Queue} (h : Hampered first l lost s)
    (hfirst : Serving {} [] first) : Serving l lost s := by
  have hpair {α : Type} {p : Procedure Queue α} {s : Session Queue} {answer : Except Fault α}
      (hanswer : (p.outcome s).1 = answer) : p.outcome s = (answer, (p.outcome s).2) :=
    Prod.ext hanswer rfl
  induction h with
  | loaded => exact hfirst
  | obstructed before hdisk ih =>
    obtain ⟨⟨plan, entered, hplan, hlive⟩, hwell⟩ := ih
    exact ⟨⟨plan, entered, hplan.obstructed hdisk, hlive⟩, hwell⟩
  | pushed before m hnext hcursor hanswer ih =>
    exact (ih.push_leads m hnext hcursor).of_ok (hpair hanswer)
  | failed before m hnext hcursor hnamed hshort hanswer ih =>
    exact ((ih.push_leads m hnext hcursor).of_error (hpair hanswer)).1 hnamed hshort
  | refused before m hnext hcursor hrefused hanswer ih =>
    exact ((ih.push_leads m hnext hcursor).of_error (hpair hanswer)).2 hrefused
  | @called l lost s before c hc hanswer ih =>
    have hrun := ih.run_leads c hc s.memory.settings.pageSize
    cases hgiven : (c.run.outcome s).1 with
    | ok answer => exact hrun.of_ok (hpair hgiven)
    | error fault =>
      refine hrun.of_error (hpair hgiven) (Bool.eq_false_iff.mpr fun hmoves => ?_)
      obtain ⟨answer, hok⟩ := hanswer hmoves
      rw [hgiven] at hok
      cases hok

/-- The settings stay, and what the files lie over. -/
theorem Hampered.from_first {first : Session Queue} (h : Hampered first l lost s)
    (hfirst : first.memory.Sane) : From first.memory s.memory := by
  have hpush (m : Message) : Keeps (From first.memory) (push m) := fun s hs => by
    have hrun := keeps_run (.push m) s hs
    simpa only [QueueCall.run, leads_bind, leads_pure] using hrun
  induction h with
  | loaded => exact hfirst.from_self
  | obstructed _ _ ih => exact ih
  | pushed _ m _ _ _ ih => exact (hpush m).outcome ih
  | failed _ m _ _ _ _ _ ih => exact (hpush m).outcome ih
  | refused _ m _ _ _ _ ih => exact (hpush m).outcome ih
  | called _ c _ _ ih => exact (keeps_run c).outcome ih

end Queue

end PagedQueue
