import PagedQueue.Proofs.LoadedQueues
import PagedQueue.Proofs.QueueWrites
import PagedQueue.Proofs.TornRecords

/-!
# Payloads after a recovery

A recovery puts the next payload behind all pages of payloads there are, whatever the records say.
So every push that follows leaves the payloads before that place alone, also if it fails
(`Queue.push_leaves`), and a message whose payload ends there at the latest is read as right after
the recovery (`recovered_payloads_stay`).

Records may however lead beyond the pages there are, as when a page was lost. Then the payload is
read as zeros, and the next push writes its own over it (`recovered_payloads_lost`).
-/

namespace PagedQueue

open Procedure
open PageStore (Ready Touches)

/-! ## Entering a message -/

namespace MessageIndex

variable {m m' m'' : MessageIndex} {uuid : Uuid} {s : Session MessageIndex}

/-- Entries were added, and at most one UUID leads elsewhere than before. -/
structure Admits (uuid : Uuid) (m m' : MessageIndex) : Prop where
  size_le : m.entries.size ≤ m'.entries.size
  entry_eq : ∀ {id}, id < m.entries.size → m'.entry id = m.entry id
  live_eq : ∀ {other : Uuid}, other ≠ uuid → m'.live[other]? = m.live[other]?

/-- A message was entered, or at least its entry was made. -/
theorem Admits.of_push {e : Entry} (hentries : m'.entries = m.entries.push e)
    (hlive : m'.live = m.live ∨ ∃ id, m'.live = m.live.insert uuid id) : Admits uuid m m' where
  size_le := by
    rw [hentries, Array.size_push]
    exact Nat.le_succ _
  entry_eq hid := entry_of_push hentries hid
  live_eq hne := by
    rcases hlive with hlive | ⟨id, hlive⟩
    · rw [hlive]
    · rw [hlive, Std.TreeMap.getElem?_insert, if_neg]
      exact fun heq => hne (Std.LawfulEqCmp.compare_eq_iff_eq.mp heq).symm

/-- Whether a message is entered or a page fails, the pages of the records are accessed, and only
the UUID of the message can come to lead elsewhere. -/
theorem publish_admits (hready : Ready (pagesOf s)) (uuid : Uuid) (offset : UInt64)
    (length : UInt32) (kind : Kind) :
    (publish uuid offset length kind).Leads s
      (fun _ u => Touches (fun _ => True) (fun _ => True) (pagesOf s) (pagesOf u)
        ∧ Admits uuid s.memory u.memory)
      fun _ u => Touches (fun _ => True) (fun _ => True) (pagesOf s) (pagesOf u)
        ∧ Admits uuid s.memory u.memory := by
  have hbytes : encodeInt32 (Int32.ofNat (s.memory.next + 1)) ≠ [] :=
    List.ne_nil_of_length_pos (by simp)
  unfold publish takePosition addEntry writeRecord raiseCount enterLive enterOrdered onFile
    PagedFile.writeInt32
  simp only [leads_bind, leads_memory, leads_update, leads_within, leads_pure, leads_ite]
  refine (PagedFile.writeBytes_leads (s := s.part file) hready _ _).mono ?_ ?_
  · intro _ t ht
    have hrecord : Touches (fun _ => True) (fun _ => True) (pagesOf s) (t.part PagedFile.store) :=
      ht.touches.mono (fun _ _ => trivial) fun _ _ => trivial
    split
    · refine (PagedFile.writeWord_leads (s := t) ht.touches.ready 0 hbytes).mono ?_ ?_
      · intro _ u hu
        exact ⟨hrecord.comp hu.1.touches (fun _ _ => trivial) fun _ _ => trivial,
          .of_push rfl (.inr ⟨_, rfl⟩)⟩
      · intro _ u hu
        exact ⟨hrecord.comp hu.touches (fun _ _ => trivial) fun _ _ => trivial,
          .of_push rfl (.inl rfl)⟩
    · exact ⟨hrecord, .of_push rfl (.inr ⟨_, rfl⟩)⟩
  · intro _ t ht
    exact ⟨ht.touches.mono (fun _ _ => trivial) fun _ _ => trivial, .of_push rfl (.inl rfl)⟩

end MessageIndex

namespace Queue

open MessageIndex (Admits pagesOf)

variable {s t u : Session Queue} {bound : Nat} {m : Message} {uuid : Uuid} {id : EntryId}

/-! ## Pushes -/

/-- A queue goes on: no payload before a certain place changes, which lies before the next payload,
and the messages known by UUID stay as they are. -/
structure Leaves (bound : Nat) (s t : Session Queue) : Prop where
  mounted : Mounted t
  settings : t.memory.settings = s.memory.settings
  refused : t.host.disk.refused = s.host.disk.refused
  payloadBytes : ∀ o < bound, Queue.payloadBytes t o = Queue.payloadBytes s o
  directory_iff : ∀ path, t.host.disk.node? path = some .directory ↔ s.host.disk.node? path
    = some .directory
  bound_le : bound ≤ t.memory.payloads.cursor
  known : ∀ {uuid : Uuid} {id}, s.memory.index.live[uuid]? = some id →
    t.memory.index.live[uuid]? = some id
    ∧ id < t.memory.index.entries.size ∧ t.memory.index.entry id = s.memory.index.entry id

theorem Mounted.leaves (h : Mounted s) (hindexed : s.memory.index.Indexed)
    (hbound : bound ≤ s.memory.payloads.cursor) : Leaves bound s s :=
  ⟨h, rfl, rfl, fun _ _ => rfl, fun _ => .rfl, hbound, fun hid => ⟨hid, (hindexed _ _ hid).1, rfl⟩⟩

namespace Leaves

/-- The records may be accessed, and a message may be entered that was not there. -/
theorem onRecords (h : Leaves bound s t) {v : Session MessageIndex} {touched written : Nat → Prop}
    (ha : Touches touched written (pagesOf (indexOf t)) (pagesOf v))
    (hadmits : Admits uuid t.memory.index v.memory) (hnew : t.memory.index.live[uuid]? = none) :
    Leaves bound s ⟨v.host, { t.memory with index := v.memory }⟩ := by
  obtain ⟨hother, -, -⟩ := record_ne_payload t.memory.settings
  have hc := h.mounted.confinedRecords ha
  refine ⟨h.mounted.touchedRecords ha, h.settings, hc.refused.trans h.refused, fun o ho => ?_,
    fun path => ?_, h.bound_le, fun {other id} hid => ?_⟩
  · exact (congrFun (hc.space_elsewhere hother.symm _) o).trans (h.payloadBytes o ho)
  · exact (hc.node?_directory_iff path).trans (h.directory_iff path)
  · obtain ⟨hknown, hlt, hentry⟩ := h.known hid
    have hne : other ≠ uuid := by
      rintro rfl
      rw [hnew] at hknown
      cases hknown
    exact ⟨(hadmits.live_eq hne).trans hknown, Nat.lt_of_lt_of_le hlt hadmits.size_le,
      (hadmits.entry_eq hlt).trans hentry⟩

/-- The payloads may be accessed, if what is written there lies behind. -/
theorem onPayloads (h : Leaves bound s t) {l : PayloadLog} {host : Host}
    {touched written : Nat → Prop}
    (ha : Touches touched written (payloadPagesOf t) ⟨host, l.file.store⟩)
    (hwritten : ∀ o < bound, ¬ written o) (hbound : bound ≤ l.cursor) :
    Leaves bound s ⟨host, { t.memory with payloads := l }⟩ := by
  have hc := h.mounted.confinedPayloads ha
  exact ⟨h.mounted.touchedPayloads ha, h.settings, hc.refused.trans h.refused,
    fun o ho => (hc.space_eq o (hwritten o ho)).trans (h.payloadBytes o ho),
    fun path => (hc.node?_directory_iff path).trans (h.directory_iff path), hbound, h.known⟩

theorem withPending (h : Leaves bound s t) (pending : Std.TreeSet Uuid) :
    Leaves bound s ⟨t.host, { t.memory with index := { t.memory.index with pending } }⟩ :=
  ⟨(h.mounted.withIndex (m := { t.memory.index with pending }) rfl).mounted, h.settings, h.refused,
    h.payloadBytes, h.directory_iff, h.bound_le, h.known⟩

theorem quiet (h : Leaves bound s t) (hq : Quiet t u) : Leaves bound s u where
  mounted := (h.mounted.quiet hq).mounted
  settings := hq.settings.trans h.settings
  refused := (congrArg Disk.refused hq.disk_eq).trans h.refused
  payloadBytes o ho :=
    (congrFun (h.mounted.quiet hq).payloadBytes_eq o).trans (h.payloadBytes o ho)
  directory_iff path := by
    rw [hq.disk_eq]
    exact h.directory_iff path
  bound_le := by
    rw [hq.payloads]
    exact h.bound_le
  known hid := by
    rw [hq.index]
    exact h.known hid

theorem append (h : Leaves bound s t) (payload : List UInt8) :
    (Queue.onPayloads (PayloadLog.append payload)).Leads t
      (fun _ u => Leaves bound s u ∧ u.memory.index = t.memory.index)
      fun _ u => Leaves bound s u := by
  have hbehind : ∀ o < bound, ¬ InRange t.memory.payloads.cursor payload.length o := fun o ho hin =>
    absurd (Nat.lt_of_lt_of_le ho h.bound_le) (Nat.not_lt.mpr hin.1)
  have hcursor := Nat.le_trans h.bound_le (Nat.le_add_right _ payload.length)
  unfold Queue.onPayloads PayloadLog.append PayloadLog.reserve PayloadLog.onFile
  simp only [leads_within, leads_bind, leads_memory, leads_update, leads_pure]
  refine (PagedFile.writeBytes_leads (s := ⟨t.host, t.memory.payloads.file⟩) h.mounted.payloadReady
    _ _).mono ?_ ?_
  · intro _ u hu
    exact ⟨h.onPayloads (l := ⟨u.memory, _⟩) hu.touches hbehind hcursor, trivial⟩
  · intro _ u hu
    exact h.onPayloads (l := ⟨u.memory, _⟩) hu.touches hbehind hcursor

theorem store (h : Leaves bound s t) (m : Message) (hnew : t.memory.index.live[m.uuid]? = none) :
    (Queue.store m).Leads t (fun _ u => Leaves bound s u) fun _ u => Leaves bound s u := by
  unfold Queue.store
  simp only [leads_bind, leads_discard]
  refine (h.append m.payload).mono ?_ fun _ _ => id
  intro offset u hu
  obtain ⟨hu, hindex⟩ := hu
  rw [← hindex] at hnew
  unfold onIndex
  rw [leads_within]
  exact (MessageIndex.publish_admits (s := indexOf u) hu.mounted.recordReady _ _ _ _).mono
    (fun _ v hv => hu.onRecords hv.1 hv.2 hnew) fun _ v hv => hu.onRecords hv.1 hv.2 hnew

/-- Whatever comes of a push, it leaves the payloads that lie before and the messages that are
known. -/
theorem push (h : Leaves bound s t) (m : Message) :
    (Queue.push m).Leads t (fun _ u => Leaves bound s u) fun _ u => Leaves bound s u := by
  unfold Queue.push
  simp only [leads_bind]
  rw [leads_ensureOpen h.mounted.isOpen]
  simp only [leads_ite, leads_bind, leads_throw, leads_pure]
  split
  · exact h
  split
  · exact h
  refine (reserve_ensures t m.uuid).leads.mono ?_ fun _ _ => False.elim
  intro reserved u hu
  obtain ⟨hhost, hmemory, hnew⟩ := hu
  obtain ⟨host, memory⟩ := u
  simp only at hhost hmemory
  subst hhost
  obtain ⟨pending, rfl⟩ : ∃ pending, memory = { t.memory with
    index := { t.memory.index with pending } } := ⟨_, hmemory⟩
  have hreserved := h.withPending pending
  cases reserved with
  | false => exact hreserved
  | true =>
    simp only [Bool.not_true, Bool.false_eq_true, if_false]
    have hnone : t.memory.index.live[m.uuid]? = none := by
      have hcontains := hnew rfl
      rwa [Std.TreeMap.contains_eq_isSome_getElem?, Option.isSome_eq_false_iff,
        Option.isNone_iff_eq_none] at hcontains
    rw [leads_tryFinally]
    refine (hreserved.store m hnone).mono ?_ ?_
    · intro _ v hv
      unfold onIndex MessageIndex.withdraw
      simp only [leads_within, leads_update]
      have hwithdrawn := hv.withPending (v.memory.index.pending.erase m.uuid)
      refine (afterChange_quiet hwithdrawn.mounted.recordCoherent
        hwithdrawn.mounted.payloadCoherent).leads.mono ?_ fun _ _ => False.elim
      exact fun _ w hw => hwithdrawn.quiet hw
    · intro _ v hv
      exact hv.withPending (v.memory.index.pending.erase m.uuid)

end Leaves

/-- Messages are pushed one after the other, whatever comes of it. -/
def pushAll (s : Session Queue) (ms : List Message) : Session Queue :=
  ms.foldl (fun t m => ((Queue.push m).outcome t).2) s

theorem Leaves.pushAll (h : Leaves bound s t) (ms : List Message) :
    Leaves bound s (pushAll t ms) := by
  induction ms generalizing t with
  | nil => exact h
  | cons m rest ih => exact ih (h.push m).outcome

/-! ## Reading a message -/

/-- A directory stands in the place of a page of the payload of an entry. -/
def Blocks (s : Session Queue) (e : Entry) : Prop :=
  ∃ o, InRange e.offset.toNat e.length.toNat o
    ∧ s.host.disk.node? (Disk.pagePath (payloadDirectory s.memory.settings)
      (o / s.memory.settings.pageSize)) = some .directory

/-- If nothing is refused, a message in the queue is read where its entry says, unless a directory
stands in the place of a page. -/
theorem get?_reads (h : Mounted s) (hcalm : s.host.disk.refused = [])
    (hfind : s.memory.index.find? uuid = some id) :
    (get? uuid).Leads s
      (fun answer _ => answer = some (messageOf s (s.memory.index.entry id))
        ∧ ¬ Blocks s (s.memory.index.entry id))
      fun _ _ => Blocks s (s.memory.index.entry id) := by
  unfold get? Blocks
  simp only [leads_bind]
  rw [leads_ensureOpen h.isOpen, leads_memory, hfind]
  unfold readMessage? readMessage Queue.onPayloads PayloadLog.read PayloadLog.onFile
  simp only [leads_bind, leads_memory, leads_within, leads_pure]
  refine (PagedFile.readBytes_leads (s := ⟨s.host, s.memory.payloads.file⟩) h.payloadReady _ _).mono
    ?_ ?_
  · intro _ u hu
    obtain ⟨hu, rfl⟩ := hu
    have hbytes : PagedFile.bytesOf ⟨s.host, s.memory.payloads.file⟩ = payloadBytes s :=
      h.contents_payloads
    refine ⟨by rw [hbytes]; rfl, fun hblocks => ?_⟩
    obtain ⟨o, ho, hblocked⟩ := hblocks
    obtain ⟨file, hfile⟩ := hu.hasPages o ho
    rw [h.payloadDirectory, h.payloadSize] at hfile
    have hkept := hu.touches.last.kept hblocked
    rw [Session.host_part, hfile] at hkept
    cases hkept
  · intro _ _ hfailed
    obtain ⟨-, ⟨o, ho, hunmappable, -⟩, -⟩ := hfailed
    rw [Session.memory_part, h.payloadDirectory, h.payloadSize] at hunmappable
    refine ⟨o, ho, ?_⟩
    have hheard (index : Nat) : Disk.pagePath (payloadDirectory s.memory.settings) index
        ∉ s.host.disk.refused := hcalm ▸ List.not_mem_nil
    cases hnode : s.host.disk.node? (Disk.pagePath (payloadDirectory s.memory.settings)
        (o / s.memory.settings.pageSize)) with
    | none => exact absurd ⟨hheard _, .inr ⟨hnode, h.grounds.payloads⟩⟩ hunmappable
    | some node =>
      cases node with
      | directory => rfl
      | file file => exact absurd ⟨hheard _, .inl ⟨file, hnode⟩⟩ hunmappable

/-- What a read of a message answers, if anything. -/
theorem get?_answer (h : Mounted s) (hcalm : s.host.disk.refused = [])
    (hfind : s.memory.index.find? uuid = some id) :
    Blocks s (s.memory.index.entry id) ∧ ((get? uuid).outcome s).1.toOption = none
      ∨ ¬ Blocks s (s.memory.index.entry id)
        ∧ ((get? uuid).outcome s).1.toOption = some
          (some (messageOf s (s.memory.index.entry id))) := by
  have hreads := get?_reads h hcalm hfind
  cases hrun : (get? uuid).outcome s with
  | mk answer t =>
    cases answer with
    | error fault => exact .inl ⟨hreads.of_error hrun, rfl⟩
    | ok message? =>
      obtain ⟨hmessage, hclear⟩ := hreads.of_ok hrun
      exact .inr ⟨hclear, congrArg some hmessage⟩

/-- A message of which the payload lies before is read as it was, if it was read at all. -/
theorem Leaves.get?_eq (h : Leaves bound s t) (hs : Mounted s) (hcalm : s.host.disk.refused = [])
    (hfind : s.memory.index.find? uuid = some id)
    (hbelow : (s.memory.index.entry id).offset.toNat + (s.memory.index.entry id).length.toNat
      ≤ bound) :
    ((get? uuid).outcome t).1.toOption = ((get? uuid).outcome s).1.toOption := by
  obtain ⟨hlive, hstatus⟩ := Option.filter_eq_some_iff.mp hfind
  obtain ⟨hknown, -, hentry⟩ := h.known hlive
  have hfound : t.memory.index.find? uuid = some id :=
    Option.filter_eq_some_iff.mpr ⟨hknown, by rw [hentry]; exact hstatus⟩
  have hblocks : Blocks t (s.memory.index.entry id) ↔ Blocks s (s.memory.index.entry id) := by
    unfold Blocks
    rw [h.settings]
    simp only [h.directory_iff]
  have hmessage : messageOf t (s.memory.index.entry id)
      = messageOf s (s.memory.index.entry id) := by
    unfold messageOf
    rw [ByteSpace.read_congr fun o _ ho => h.payloadBytes o (Nat.lt_of_lt_of_le ho hbelow)]
  have hafter := get?_answer h.mounted (h.refused.trans hcalm) hfound
  rw [hentry, hblocks, hmessage] at hafter
  rcases get?_answer hs hcalm hfind with ⟨hblocked, hnone⟩ | ⟨hclear, hsome⟩
  · rw [hnone]
    exact (hafter.resolve_right fun hand => hand.1 hblocked).2
  · rw [hsome]
    exact (hafter.resolve_left fun hand => hclear hand.1).2

end Queue

/-! ## Recoveries -/

/-- No number overflows: all pages and the place of the next payload lie below `2 ^ 64`, and the
next position below `2 ^ 32`. -/
@[mk_iff]
structure Queue.InBounds (s : Session Queue) : Prop where
  records : recordReach s < 0x10000000000000000
  payloads : payloadReach s < 0x10000000000000000
  cursor : s.memory.payloads.cursor < 0x10000000000000000
  next : s.memory.index.next < 0x100000000

/-- A queue is opened over directories that hold anything, none of it refused, and recovered. The
next payload goes behind all pages of payloads. A message in the queue of which the payload ends
there at the latest is read, after any messages were pushed, as it is right after the recovery. All
this is so as long as no number overflows. -/
theorem recovered_payloads_stay {σ : Type} {s opened : Session σ} (hsound : s.host.disk.Sound)
    {settings : Settings} {queue : Queue}
    (hopen : (Queue.openFiles settings).outcome s = (.ok queue, opened)) {tally : Tally}
    {t : Session Queue} (hrecover : Queue.recover.outcome ⟨opened.host, queue⟩ = (.ok tally, t))
    (hcalm : t.host.disk.refused = []) :
    (Queue.InBounds t → t.memory.payloads.cursor = Queue.payloadReach t)
    ∧ ∀ (uuid : Uuid) id, t.memory.index.find? uuid = some id →
      (t.memory.index.entry id).offset.toNat + (t.memory.index.entry id).length.toNat
        ≤ t.memory.payloads.cursor →
      ∀ ms, Queue.InBounds (Queue.pushAll t ms) →
        ((Queue.get? uuid).outcome (Queue.pushAll t ms)).1.toOption
          = ((Queue.get? uuid).outcome t).1.toOption := by
  obtain ⟨hmounted, -⟩ := (Queue.openFiles_leads hsound).of_ok hopen
  have hrecovers := (Queue.recover_leads hmounted).of_ok hrecover
  have hleaves := hrecovers.changes.mounted.leaves hrecovers.holds.indexed (Nat.le_refl _)
  exact ⟨fun _ => hrecovers.cursor_eq, fun uuid id hfind hbelow ms _ =>
    (hleaves.pushAll ms).get?_eq hrecovers.changes.mounted hcalm hfind hbelow⟩

namespace Queue

/-- The queue that is opened and recovered, if it can be. -/
def recovered? (settings : Settings) (host : Host) : Option (Session Queue) :=
  match (openFiles settings).outcome (⟨host, ()⟩ : Session Unit) with
  | (.ok queue, opened) =>
    match recover.outcome ⟨opened.host, queue⟩ with
    | (.ok _, t) => some t
    | (.error _, _) => none
  | (.error _, _) => none

theorem recover_of_recovered? {settings : Settings} {host : Host} {t : Session Queue}
    (h : recovered? settings host = some t) : ∃ queue opened tally,
      (openFiles settings).outcome (⟨host, ()⟩ : Session Unit) = (.ok queue, opened)
        ∧ recover.outcome ⟨opened.host, queue⟩ = (.ok tally, t) := by
  unfold recovered? at h
  split at h
  next queue opened hopen =>
    split at h
    next tally t' hrecover =>
      cases h
      exact ⟨queue, opened, tally, hopen, hrecover⟩
    next => cases h
  next => cases h

/-- The payload of a message lies before the next payload, and it is read. -/
def ReadsBelow (s : Session Queue) : Prop :=
  s.memory.index.find? stopped.uuid = some 0
    ∧ (s.memory.index.entry 0).offset.toNat + (s.memory.index.entry 0).length.toNat
      ≤ s.memory.payloads.cursor
    ∧ ((get? stopped.uuid).outcome s).1 = .ok (some stopped)
    ∧ s.host.disk.refused = []
    ∧ InBounds (pushAll s [finished])

instance (s : Session Queue) : Decidable (InBounds s) :=
  decidable_of_iff (_ ∧ _ ∧ _ ∧ _) (inBounds_iff s).symm

instance (s : Session Queue) : Decidable (ReadsBelow s) := by
  unfold ReadsBelow
  infer_instance

/-- The first page of payloads is gone. -/
def withoutPayloads (host : Host) : Host :=
  { host with disk := (Change.unlink (Disk.pagePath ["queue", "data"] 0)).apply 0 host.disk }

/-- The payload of a message lies behind the place of the next one, and a push writes over it. -/
def LosesPayload (s : Session Queue) : Prop :=
  s.memory.index.find? stopped.uuid = some 0
    ∧ s.memory.payloads.cursor
      < (s.memory.index.entry 0).offset.toNat + (s.memory.index.entry 0).length.toNat
    ∧ ((get? stopped.uuid).outcome s).1 = .ok (some { stopped with payload := [0, 0] })
    ∧ ((push finished).outcome s).1 = .ok true
    ∧ ((get? stopped.uuid).outcome (pushAll s [finished])).1
      = .ok (some { stopped with payload := [3, 0] })

instance (s : Session Queue) : Decidable (LosesPayload s) := by
  unfold LosesPayload
  infer_instance

end Queue

open Queue in
/-- A message that was recovered is read as before once another one was pushed. -/
theorem recovered_payloads_stay_pushed : ∃ first t, loaded? narrow bareHost = some first
    ∧ recovered? narrow (pushAll first [stopped]).host = some t
    ∧ ((get? stopped.uuid).outcome (pushAll t [finished])).1.toOption = some (some stopped) := by
  have hdecide : (loaded? narrow bareHost).any (fun first =>
      (recovered? narrow (pushAll first [stopped]).host).any fun t => decide (ReadsBelow t))
        = true := by
    decide +kernel
  obtain ⟨first, hfirst, hdecide⟩ := (Option.any_eq_true _ _).mp hdecide
  obtain ⟨t, ht, hdecide⟩ := (Option.any_eq_true _ _).mp hdecide
  obtain ⟨hfind, hbelow, hget, hcalm, hbounds⟩ := of_decide_eq_true hdecide
  obtain ⟨queue, loaded, hload, rfl⟩ := load_of_loaded? hfirst
  obtain ⟨queue', opened, tally, hopen, hrecover⟩ := recover_of_recovered? ht
  have hagrees := ((load_agrees (Disk.fresh_new ["queue"]).sound narrow).of_ok hload).1
  have hpushed := (hagrees.toMounted.leaves hagrees.holds.indexed (Nat.le_refl _)).pushAll [stopped]
  refine ⟨_, t, hfirst, ht, ?_⟩
  have hstays :=
    (recovered_payloads_stay (s := ⟨_, ()⟩) hpushed.mounted.grounds.sound hopen hrecover hcalm).2
  rw [hstays _ 0 hfind hbelow _ hbounds, hget]
  rfl

open Queue in
/-- A page of payloads is lost, and a message that is recovered all the same changes its payload. -/
theorem recovered_payloads_lost : ∃ first s, loaded? narrow bareHost = some first
    ∧ recovered? narrow (withoutPayloads (pushAll first [stopped]).host) = some s
    ∧ LosesPayload s := by
  have hdecide : (loaded? narrow bareHost).any (fun first =>
      (recovered? narrow (withoutPayloads (pushAll first [stopped]).host)).any fun s =>
        decide (LosesPayload s)) = true := by
    decide +kernel
  obtain ⟨first, hfirst, hdecide⟩ := (Option.any_eq_true _ _).mp hdecide
  obtain ⟨s, hs, hdecide⟩ := (Option.any_eq_true _ _).mp hdecide
  exact ⟨first, s, hfirst, hs, of_decide_eq_true hdecide⟩

end PagedQueue
