import PagedQueue.Proofs.RecordGaps
import PagedQueue.Proofs.TornRecords

/-!
# What a push accepts

A queue is loaded from any disk and used, messages are put in, and it is opened anew
(`accepted_pushes_come_back`). As long as there was room for the messages (`Queue.HasRoom`), three
things can stand in the way of what was accepted. A push that failed at its record because a
directory stands in the place of a page leaves a gap, and when the count is raised over it the queue
cannot be opened any more. A second live record of a UUID that was passed over when the queue was
loaded comes to the fore when the first one is finished, and then it is read in place of a message
that was put in since. And the room is needed: a push casts the count and the offset of the payload
to numbers with a sign and does not ask whether they fit, and a recovery refuses numbers below zero.
Where none of these is the case, the queue that is opened has every message that was accepted.
-/

namespace PagedQueue

open Procedure
open Record (place countSize)
open MessageIndex (Unreadable Wanted)

namespace Item

variable {m : Message} {offset p : Nat}

/-- A payload beyond what an offset can say makes no sense. -/
theorem faulty_of_beyond (hnamed : m.uuid ≠ Uuid.nil) (hbeyond : 0x8000000000000000 ≤ offset)
    (hlt : offset < 0x10000000000000000) : ((ofMessage m).toEntry p offset).toRecord.Faulty := by
  have huuid : ((ofMessage m).toEntry p offset).toRecord.uuid = m.uuid := by
    rw [uuid_toRecord]
    rfl
  have hoffset : ((ofMessage m).toEntry p offset).toRecord.offset = Int64.ofNat offset :=
    UInt64.toInt64_ofNat'
  refine ⟨huuid ▸ hnamed, .inr ⟨.inl rfl, .inl ?_⟩⟩
  rw [hoffset, Int64.lt_iff_toInt_lt, Int64.toInt_ofNat', Int64.toInt_zero, Int.bmod_def,
    show Int64.size = 0x10000000000000000 from rfl]
  split
  next => omega
  next => omega

end Item

namespace Queue

variable {doubled : Uuid → Prop} {gaps : Nat → Prop} {held : Nat → Option Entry}
  {s t : Session Queue} {m : Message} {ms : List Message} {p offset : Nat} {status : Status}

/-! ## Opening anew -/

/-- Where there are pages of records, what is opened anew has recovered them. -/
theorem reopen_recovers (h : Mounted s) (hstarted : recordReach s ≠ 0) (closing : Bool)
    (policy : Policy) :
    (reopen closing policy).Leads s
      (fun _ t => ∃ opened : Session Queue, opened.host = s.host
        ∧ opened.memory.settings = policy.onSettings s.memory.settings ∧ Recovers opened t)
      fun _ _ => ∃ opened : Session Queue, opened.host = s.host
        ∧ opened.memory.settings = policy.onSettings s.memory.settings ∧ Mounted opened
        ∧ ((recordBytes opened).Unsound (recordReach opened)
          ∨ Unreadable (Wanted (indexOf opened) (recordsHeld opened)) (indexOf opened)) := by
  have hload (memory : Queue) : (load (policy.onSettings s.memory.settings)).Leads ⟨s.host, memory⟩
      (fun q t => ∃ opened : Session Queue, opened.host = s.host
        ∧ opened.memory.settings = policy.onSettings s.memory.settings
          ∧ Recovers opened ⟨t.host, q⟩)
      fun _ _ => ∃ opened : Session Queue, opened.host = s.host
        ∧ opened.memory.settings = policy.onSettings s.memory.settings ∧ Mounted opened
        ∧ ((recordBytes opened).Unsound (recordReach opened)
          ∨ Unreadable (Wanted (indexOf opened) (recordsHeld opened)) (indexOf opened)) := by
    refine (load_leads (s := ⟨s.host, memory⟩) (policy.validate_onSettings h.valid) h.grounds
      hstarted).mono ?_ fun _ _ => id
    intro q t ht
    obtain ⟨opened, hhost, hsettings, -, ht⟩ := ht
    exact ⟨opened, hhost, hsettings, ht⟩
  unfold reopen
  cases closing with
  | true =>
    simp only [if_true, leads_bind, leads_memory, leads_update]
    refine (close_ensures s).leads.mono ?_ fun _ _ => False.elim
    intro _ _ ht
    subst ht
    rw [settings_shut]
    exact hload s.memory.shut
  | false =>
    simp only [Bool.false_eq_true, if_false, leads_bind, leads_memory, leads_update]
    exact hload s.memory

/-- A directory stands in the place of a page of the records below the count. -/
def IsBlocked (s : Session Queue) : Prop := ∃ o < place s.memory.recordCount,
  s.host.disk.node? (Disk.pagePath (Queue.recordDirectory s.memory.settings)
    (o / s.memory.settings.pageSize)) = some .directory

namespace Matches

/-- There are pages of records. -/
theorem reach_ne_zero (h : Matches doubled gaps held s) : recordReach s ≠ 0 := by
  have hlt := h.lt_recordReach (h.countPage 0 ⟨Nat.le_refl _, by decide⟩) (by decide)
  omega

/-- No gap lies below the count if no directory is in the way. -/
theorem not_gap (h : Matches doubled gaps held s) (hclear : ¬ IsBlocked s)
    (hp : p < s.memory.index.count) : ¬ gaps p := by
  intro hgap
  obtain ⟨-, o, ho, hrefused | hnode⟩ := h.gap hgap
  · rw [h.calm] at hrefused
    cases hrefused
  · refine hclear ⟨o, ?_, hnode⟩
    have hend := ho.2
    have hcount : p < s.memory.recordCount := hp
    simp only [place, Record.size] at hend ⊢
    omega

/-- Then all pages of records below the count are there. -/
theorem recordPage_of_clear (h : Matches doubled gaps held s) (hclear : ¬ IsBlocked s) {o : Nat}
    (ho : o < place s.memory.recordCount) : RecordPage s o := by
  by_cases hcount : o < countSize
  · exact h.countPage o ⟨Nat.zero_le _, by rwa [Nat.zero_add]⟩
  · have hp : (o - countSize) / Record.size < s.memory.index.count := by
      rw [Nat.div_lt_iff_lt_mul (by decide)]
      have hsame : s.memory.recordCount = s.memory.index.count := rfl
      simp only [place, hsame] at ho
      omega
    refine h.recordPage hp (h.not_gap hclear hp) o ⟨?_, ?_⟩
    · have hle := Nat.div_mul_le_self (o - countSize) Record.size
      simp only [place]
      omega
    · have hlt := Nat.lt_mul_div_succ (o - countSize) (show 0 < Record.size by decide)
      simp only [place, Record.size] at hlt ⊢
      omega

/-- The pages of the records reach as far as the records go. -/
theorem place_le_reach (h : Matches doubled gaps held s) (hclear : ¬ IsBlocked s) :
    place s.memory.recordCount ≤ recordReach s := by
  have hcount := h.recordCount_eq
  have hlt := (recordBytes s).covered_lt
  have hlast : place s.memory.recordCount - 1 < place s.memory.recordCount := by
    simp only [place, countSize]
    omega
  have hreached := h.lt_recordReach (h.recordPage_of_clear hclear hlast) (by
    simp only [place, countSize, Record.size]
    omega)
  omega

/-- Where no directory is in the way, what the records say is sound. -/
theorem not_unsound (h : Matches doubled gaps held s) (hclear : ¬ IsBlocked s) :
    ¬ (recordBytes s).Unsound (recordReach s) := by
  intro hand
  obtain ⟨-, hnegative | hbeyond | ⟨p, hp, hfaulty⟩⟩ := hand
  · exact h.nonneg hnegative
  · rw [← h.recordCount_eq] at hbeyond
    exact Nat.not_lt_of_le (h.place_le_reach hclear) hbeyond
  · rw [← h.count_eq] at hp
    exact h.sense hp (h.not_gap hclear hp) hfaulty

end Matches

/-- A queue was opened anew over the records and payloads of another one. -/
structure Resumes (s t : Session Queue) : Prop where
  mounted : Mounted t
  calm : t.host.disk.refused = s.host.disk.refused
  count_eq : t.memory.recordCount = (recordBytes s).covered
  holds : t.memory.index.Holds ((recordBytes s).liveAt? (recordBytes s).covered)
  payloadBytes_eq : payloadBytes t = payloadBytes s
  payloadPage : ∀ o, PayloadPage s o → PayloadPage t o
  recordPage : ∀ o < place (recordBytes s).covered, ∃ id,
    t.host.disk.node? (Disk.pagePath (Queue.recordDirectory s.memory.settings)
      (o / s.memory.settings.pageSize)) = some (.file id)
  kept : ∀ {path node}, s.host.disk.node? path = some node → t.host.disk.node? path = some node

/-- What was recovered from the disk of a queue resumes it. -/
theorem Recovers.resumes {opened : Session Queue} (h : Recovers opened t)
    (hhost : opened.host = s.host)
    {policy : Policy} (hsettings : opened.memory.settings = policy.onSettings s.memory.settings)
    (hstarted : recordReach s ≠ 0) : Resumes s t ∧ ¬ (recordBytes s).Unsound (recordReach s) := by
  have hreach : recordReach opened = recordReach s := by
    rw [recordReach, hhost, hsettings]
    rfl
  have hrecords : recordBytes opened = recordBytes s := by
    rw [recordBytes, hhost, hsettings]
    rfl
  have hpayloads : payloadBytes opened = payloadBytes s := by
    rw [payloadBytes, hhost, hsettings]
    rfl
  have hheld : recordsHeld opened = (recordBytes s).covered := by
    rw [recordsHeld, hreach, hrecords]
    exact if_neg hstarted
  have hsound := h.sound
  have hholds := h.holds
  rw [hrecords, hreach] at hsound
  rw [hrecords, hheld] at hholds
  refine ⟨?_, hsound⟩
  exact {
    mounted := h.changes.mounted
    calm := h.changes.refused.trans (by rw [hhost])
    count_eq := h.count_eq.trans hheld
    holds := hholds
    payloadBytes_eq := h.changes.payloadBytes_eq.trans hpayloads
    payloadPage := fun o ho => h.changes.payloadPage o (by
      rw [PayloadPage, hhost, hsettings]
      exact ho)
    recordPage := fun o ho => by
      have hpage := h.recordPage (hreach ▸ hstarted) o (hheld ▸ ho)
      rw [RecordPage, h.changes.settings, hsettings] at hpage
      exact hpage
    kept := fun hnode => h.changes.kept (hhost.symm ▸ hnode) }

/-- A queue that matches its records can be opened anew, where no directory is in the way. -/
theorem Matches.reopen_ensures (h : Matches doubled gaps held s) (hclear : ¬ IsBlocked s)
    (closing : Bool)
    (policy : Policy) : (reopen closing policy).Ensures s fun _ t => Resumes s t := by
  refine ((reopen_recovers h.toMounted h.reach_ne_zero closing policy).ensures ?_).mono ?_
  · intro _ _ hand
    obtain ⟨opened, hhost, hsettings, hmounted, hunsound | ⟨o, ⟨-, ho⟩, hunmappable⟩⟩ := hand
    · rw [recordBytes, recordReach, hhost, hsettings] at hunsound
      exact h.not_unsound hclear hunsound
    · have hheld : recordsHeld opened = s.memory.recordCount := by
        rw [recordsHeld, recordReach, recordBytes, hhost, hsettings, h.recordCount_eq]
        exact if_neg h.reach_ne_zero
      rw [Session.memory_part, hmounted.recordDirectory, hmounted.recordSize, hsettings,
        Session.host_part, hhost] at hunmappable
      exact hunmappable (h.mappable (h.recordPage_of_clear hclear (hheld ▸ ho)))
  · intro _ t hand
    obtain ⟨opened, hhost, hsettings, ht⟩ := hand
    exact (ht.resumes hhost hsettings h.reach_ne_zero).1

/-- Nothing can be opened anew where the records are unsound, or where a directory is in the way of
one. -/
theorem not_reopened (h : Mounted s) (hstarted : recordReach s ≠ 0)
    (hbad : (recordBytes s).Unsound (recordReach s)
      ∨ (recordBytes s).covered = s.memory.recordCount ∧ IsBlocked s) (closing : Bool)
        (policy : Policy) :
    ∃ fault t, (reopen closing policy).outcome s = (.error fault, t) := by
  have hreopen := reopen_recovers h hstarted closing policy
  cases hrun : (reopen closing policy).outcome s with
  | mk answer t =>
    cases answer with
    | error fault => exact ⟨fault, t, rfl⟩
    | ok =>
      obtain ⟨opened, hhost, hsettings, ht⟩ := hreopen.of_ok hrun
      obtain ⟨hresumes, hsound⟩ := ht.resumes hhost hsettings hstarted
      rcases hbad with hunsound | ⟨hcount, o, ho, hnode⟩
      · exact absurd hunsound hsound
      · obtain ⟨id, hid⟩ := hresumes.recordPage o (hcount ▸ ho)
        have hkept := hresumes.kept hnode
        rw [hid] at hkept
        cases hkept

/-! ## Messages that come back -/

/-- A message that lies in its place is read once the queue is opened anew, where no directory is in
the way and its UUID was not doubled. -/
theorem Resumes.get?_ensures (h : Resumes s t) (hs : Matches doubled gaps held s)
    (hclear : ¬ IsBlocked s) (hl : Lies held m p offset status s) (hsingle : ¬ doubled m.uuid) :
    (get? m.uuid).Ensures t fun answer _ => answer = some m := by
  obtain ⟨hlt, -, hrecord, hlive⟩ := hs.record hl.held_eq
  have huuid : ((recordBytes s).recordAt p).uuid = m.uuid := by
    rw [hrecord, Item.uuid_toRecord]
    rfl
  -- no other live record bears the UUID
  have hfirst : (recordBytes s).FirstLive p := by
    refine ⟨hlive, fun q hq hliveq hsame => ?_⟩
    have hltq := Nat.lt_trans hq hlt
    have hgapq := hs.not_gap hclear hltq
    cases hheld : held q with
    | none =>
      have hdoubled := hs.spare hltq hgapq hheld hliveq
      rw [hsame, huuid] at hdoubled
      exact hsingle hdoubled
    | some e =>
      obtain ⟨-, -, hrecordq, -⟩ := hs.record hheld
      rw [hrecordq, hrecord, Item.uuid_toRecord] at hsame
      have heq : e.uuid = m.uuid := (Uuid.ofHalves_high_low e.uuid).symm.trans hsame
      exact Nat.ne_of_lt hq (hs.holds.queued.unique hheld hl.held_eq heq)
  have hback : ((recordBytes s).recordAt p).toEntry p
      = ({ Item.ofMessage m with status } : Item).toEntry p offset := by
    rw [hrecord]
    exact Entry.toEntry_toRecord (hs.holds.queued.isLive hl.held_eq)
  have hheld : (recordBytes s).liveAt? (recordBytes s).covered p
      = some (({ Item.ofMessage m with status } : Item).toEntry p offset) :=
    ByteSpace.liveAt?_eq_some_iff.mpr ⟨hs.count_eq ▸ hlt, hfirst, hback⟩
  obtain ⟨id, hid, hentry⟩ := h.holds.exists_id hheld
  have hfind : t.memory.index.find? m.uuid = some id :=
    h.holds.find?_eq_some_iff.mpr ⟨p, hid, by rw [hentry]; rfl⟩
  have hoffset : (t.memory.index.entry id).offset.toNat = offset := by
    rw [hentry]
    exact UInt64.toNat_ofNat_of_lt' (Nat.lt_trans hl.offset_lt (by decide))
  have hlength : (t.memory.index.entry id).length.toNat = m.size := by
    rw [hentry]
    exact UInt32.toNat_ofNat_of_lt' (Nat.lt_of_le_of_lt hl.short (by decide))
  have hmessage : messageOf t (t.memory.index.entry id) = m := by
    rw [messageOf, hoffset, hlength, h.payloadBytes_eq, hl.payload, hentry]
    rfl
  have hreadable : Readable t (t.memory.index.entry id) := by
    refine ⟨?_, .inr ⟨h.calm.trans hs.calm, fun o ho => h.payloadPage o (hl.payloadPage o ?_)⟩⟩
    · have hbelow := hl.offset_lt
      have hshort := hl.short
      rw [maxPayload] at hshort
      omega
    · rwa [hoffset, hlength] at ho
  unfold get? Ensures
  simp only [leads_bind]
  rw [leads_ensureOpen h.mounted.isOpen, leads_memory, hfind]
  simp only [readMessage?, leads_bind, leads_pure]
  refine (readMessage_of_mounted h.mounted id hreadable).leads.mono ?_ fun _ _ => False.elim
  intro _ _ hu
  rw [hu.1, hmessage]

/-- The messages that a queue carries come back, where no directory is in the way. -/
theorem Carries.come_back (h : Carries doubled ms s) (hclear : ¬ IsBlocked s) (closing : Bool)
    (policy : Policy) : ∃ u, (reopen closing policy).outcome s = (.ok (), u)
      ∧ u.memory.recordCount = s.memory.recordCount
      ∧ ∀ m ∈ ms, ¬ doubled m.uuid → ((get? m.uuid).outcome u).1 = .ok (some m) := by
  obtain ⟨gaps, held, hmatches, hlies⟩ := h
  obtain ⟨_, u, hrun, hu⟩ := (hmatches.reopen_ensures hclear closing policy).outcome
  refine ⟨u, hrun, hu.count_eq.trans hmatches.recordCount_eq.symm, fun m hm hsingle => ?_⟩
  obtain ⟨p, offset, status, hl⟩ := hlies m hm
  obtain ⟨_, _, hget, rfl⟩ := (hu.get?_ensures hmatches hclear hl hsingle).outcome
  rw [hget]

/-- Once a directory is in the way of a record below the count, nothing can be opened anew. -/
theorem Carries.blocked (h : Carries doubled ms s) (hblocked : IsBlocked s) (closing : Bool)
    (policy : Policy) : ∃ fault u, (reopen closing policy).outcome s = (.error fault, u) := by
  obtain ⟨gaps, held, hmatches, -⟩ := h
  exact not_reopened hmatches.toMounted hmatches.reach_ne_zero
    (.inr ⟨hmatches.recordCount_eq.symm, hblocked⟩) closing policy

/-- Once a message is put in for which there was no room, the records are unsound. -/
theorem Put.unsound (ht : Put m s t) (h : Matches doubled gaps held s) (hfull : ¬ HasRoom s.memory)
    (hnamed : m.uuid ≠ Uuid.nil) (hbelow : s.memory.payloads.cursor < 0x10000000000000000) :
    (recordBytes t).Unsound (recordReach t) := by
  have hpage := ht.recordPage 0 (.inr ⟨Nat.le_refl _, by decide⟩)
  have hstarted := ht.changes.mounted.lt_recordReach hpage (by decide)
  refine ⟨Nat.pos_iff_ne_zero.mp hstarted, ?_⟩
  rcases Nat.lt_or_eq_of_le h.next_le with hlt | hlast
  · -- the offset of the payload turns below zero
    have hbeyond : 0x8000000000000000 ≤ s.memory.payloads.cursor := by
      by_contra hroom
      exact hfull ⟨hlt, Nat.lt_of_not_le hroom⟩
    refine .inr (.inr ⟨s.memory.index.next, ?_, ?_⟩)
    · rw [Matches.covered_put ht hlt]
      exact Nat.lt_succ_self _
    · rw [Matches.recordAt_next ht]
      exact Item.faulty_of_beyond hnamed hbeyond hbelow
  · -- the count of all records there can be turns below zero
    refine .inl ?_
    rw [Matches.count_put ht, hlast]
    decide

/-- Then nothing can be opened anew. -/
theorem Carries.lost (h : Carries doubled ms s) (hfull : ¬ HasRoom s.memory)
    (hbelow : s.memory.payloads.cursor + m.size < 0x10000000000000000)
    (hpush : (push m).outcome s = (.ok true, t)) (closing : Bool) (policy : Policy) :
    ∃ fault u, (reopen closing policy).outcome t = (.error fault, u) := by
  obtain ⟨gaps, held, hmatches, -⟩ := h
  have hnext := hmatches.next_le
  have hleads := (push_writes hmatches.toMounted m hmatches.count_le (by omega)
    fun _ => Nat.le_of_lt hbelow).of_ok hpush
  obtain ⟨-, hnamed, -, -, ht⟩ := hleads.resolve_right fun hand => nomatch hand.1
  have hunsound := ht.unsound hmatches hfull hnamed (by omega)
  exact not_reopened ht.changes.mounted hunsound.1 (.inl hunsound) closing policy

end Queue

open Queue (HasRoom IsBlocked Used)

/-- A queue is loaded from any disk on which nothing is refused, and used: messages are pushed while
there is room for them and other calls are made, whatever comes of any of it. If no directory stands
in the place of a page of the records below the count, the queue that is opened anew has the same
count of records, and each message that was accepted and not finished since is there as it was
pushed, unless two live records bore its UUID when the queue was loaded. If a directory does,
nothing can be opened any more; nor can it once a message is accepted for which there is no room. -/
theorem accepted_pushes_come_back {σ : Type} {s loaded : Session σ} (hsound : s.host.disk.Sound)
    {settings : Settings} {queue : Queue}
    (hload : (Queue.load settings).outcome s = (.ok queue, loaded))
    (hcalm : loaded.host.disk.refused = []) {ms : List Message} {t : Session Queue}
    (hused : Used ⟨loaded.host, queue⟩ ms t) (closing : Bool) (policy : Policy) :
    (¬ IsBlocked t → ∃ u, (Queue.reopen closing policy).outcome t = (.ok (), u)
      ∧ u.memory.recordCount = t.memory.recordCount
      ∧ ∀ m ∈ ms, ¬ (Queue.recordBytes ⟨loaded.host, queue⟩).Doubles queue.recordCount m.uuid →
        ((Queue.get? m.uuid).outcome u).1 = .ok (some m))
    ∧ (IsBlocked t → ∃ fault u, (Queue.reopen closing policy).outcome t = (.error fault, u))
    ∧ ∀ m u, (Queue.push m).outcome t = (.ok true, u) → ¬ HasRoom t.memory →
      t.memory.payloads.cursor + m.size < 0x10000000000000000 →
      ∃ fault v, (Queue.reopen closing policy).outcome u = (.error fault, v) := by
  have hagrees : Queue.Agrees ⟨loaded.host, queue⟩ :=
    ((Queue.load_agrees hsound settings).of_ok hload).1
  have hcount : queue.recordCount = (Queue.recordBytes ⟨loaded.host, queue⟩).covered :=
    hagrees.count_eq
  have hcarries := hused.carries ⟨_, _, hagrees.matches hcalm, nofun⟩
  rw [hcount]
  exact ⟨fun hclear => hcarries.come_back hclear closing policy,
    fun hblocked => hcarries.blocked hblocked closing policy,
    fun _ _ hpush hfull hbelow => hcarries.lost hfull hbelow hpush closing policy⟩

namespace Queue

/-- The queue goes on as it was, and bytes are forced out by hand. -/
def manually : Policy := ⟨1, .manual, by decide, by decide, by decide⟩

/-- The queue once the first of two messages was pushed. -/
def afterPush (s : Session Queue) : Session Queue := ((push stopped).outcome s).2

/-- The queue once both messages were pushed. -/
def afterPushes (s : Session Queue) : Session Queue := ((push finished).outcome (afterPush s)).2

instance (q : Queue) : Decidable (HasRoom q) :=
  decidable_of_iff (q.index.next < 0x7FFFFFFF ∧ q.payloads.cursor < 0x8000000000000000)
    ⟨fun h => ⟨h.1, h.2⟩, fun h => ⟨h.record, h.payload⟩⟩

instance (s : Session Queue) : Decidable (IsBlocked s) := by
  unfold IsBlocked
  infer_instance

/-- The queue is empty and nothing is refused. Two messages are accepted, with room for each, and no
directory is in the way of their records. -/
def AcceptsBoth (s : Session Queue) : Prop :=
  (s.host.disk.refused = [] ∧ s.memory.recordCount = 0)
    ∧ (HasRoom s.memory ∧ ((push stopped).outcome s).1 = .ok true)
    ∧ (HasRoom (afterPush s).memory ∧ ((push finished).outcome (afterPush s)).1 = .ok true)
    ∧ ¬ IsBlocked (afterPushes s)

instance (s : Session Queue) : Decidable (AcceptsBoth s) := by
  unfold AcceptsBoth
  infer_instance

/-- A file bears the name of a page of payloads of which the end is beyond what an offset can
say. -/
def withFarPage (host : Host) : Host :=
  let path := Disk.pagePath ["queue", "data"] 0xFFFFFFFFFFFFFFF
  { host with disk := (Change.create path).apply 0 host.disk }

/-- A message is accepted, and the queue cannot be opened anew. -/
def AcceptsInVain (s : Session Queue) : Prop :=
  ((push stopped).outcome s).1 = .ok true
    ∧ ((reopen true manually).outcome (afterPush s)).1
      = .error (.corruption (.negativeExtent 0 (-0x8000000000000000) 2))

instance (s : Session Queue) : Decidable (AcceptsInVain s) := by
  unfold AcceptsInVain
  infer_instance

end Queue

open Queue in
/-- Two messages are put into a queue that was loaded where nothing was, and both come back. -/
theorem accepted_pushes_come_back_both : ∃ s v, loaded? narrow bareHost = some s
    ∧ AcceptsBoth s
    ∧ (reopen true manually).outcome (afterPushes s) = (.ok (), v)
    ∧ ((get? stopped.uuid).outcome v).1 = .ok (some stopped)
    ∧ ((get? finished.uuid).outcome v).1 = .ok (some finished) := by
  have hdecide : (loaded? narrow bareHost).any (fun s => decide (AcceptsBoth s)) = true := by
    decide +kernel
  obtain ⟨s, hs, hdecide⟩ := (Option.any_eq_true _ _).mp hdecide
  have hboth := of_decide_eq_true hdecide
  obtain ⟨⟨hcalm, hempty⟩, ⟨hroom, hfirst⟩, ⟨hroom', hsecond⟩, hclear⟩ := hboth
  obtain ⟨queue, opened, hload, rfl⟩ := load_of_loaded? hs
  have hused := (Used.loaded.accepted stopped hroom (Prod.ext hfirst rfl)).accepted finished hroom'
    (Prod.ext hsecond rfl)
  obtain ⟨v, hrun, -, hget⟩ :=
    (accepted_pushes_come_back (Disk.fresh_new ["queue"]).sound hload hcalm
    hused true manually).1 hclear
  have hsingle (uuid : Uuid) :
      ¬ (recordBytes ⟨opened.host, queue⟩).Doubles queue.recordCount uuid := by
    rintro ⟨p, q, -, hq, -⟩
    rw [show queue.recordCount = 0 from hempty] at hq
    exact Nat.not_lt_zero q hq
  exact ⟨_, v, hs, ⟨⟨hcalm, hempty⟩, ⟨hroom, hfirst⟩, ⟨hroom', hsecond⟩, hclear⟩, hrun,
    hget stopped (by simp) (hsingle _), hget finished (by simp) (hsingle _)⟩

open Queue in
/-- A message is put in behind a page far out, and then the queue cannot be opened any more. -/
theorem accepted_push_locks_out : ∃ first s, loaded? narrow bareHost = some first
    ∧ loaded? narrow (withFarPage first.host) = some s ∧ AcceptsInVain s := by
  have hdecide : (loaded? narrow bareHost).any (fun first =>
      (loaded? narrow (withFarPage first.host)).any fun s => decide (AcceptsInVain s)) = true := by
    decide +kernel
  obtain ⟨first, hfirst, hdecide⟩ := (Option.any_eq_true _ _).mp hdecide
  obtain ⟨s, hs, hdecide⟩ := (Option.any_eq_true _ _).mp hdecide
  exact ⟨first, s, hfirst, hs, of_decide_eq_true hdecide⟩

end PagedQueue
