import PagedQueue.Proofs.MountedQueue

/-!
# The operations of a queue

What a queue does when it tracks a ledger, operation by operation. Forcing bytes out and letting
pages go leave the messages alone (`afterChange_ensures`, `checkpoint_ensures`); a message is read
as it was put in (`readMessage_ensures`); a push puts the payload behind all others and then enters
the message (`push_new`); the other operations move one message or none (`change_ensures`).
-/

namespace PagedQueue

open Procedure
open Disk (Apart Confined Records Payloads)
open PageStore (Ready Access Touches Nowhere Turns)
open MessageIndex (Holding Carries Becomes Moves Stands pagesOf reachOf)

namespace Queue

variable {l l' : Ledger} {layout layout' : Nat → Nat} {s t : Session Queue} {p : Nat} {i : Item}
  {id : EntryId}

/-! ## Forcing bytes out -/

section

variable (hrecords : s.memory.index.file.store.Coherent s.host.disk)
  (hpayloads : s.memory.payloads.file.store.Coherent s.host.disk)
include hrecords hpayloads

/-- The number of changes shows nowhere. -/
theorem quiet_withChanges (changes : Nat) : Quiet s ⟨s.host, { s.memory with changes }⟩ :=
  ⟨.start rfl, rfl, rfl, rfl, rfl, .refl _, .refl _, hrecords, hpayloads⟩

theorem flushFiles_quiet : flushFiles.Ensures s fun _ t => Quiet s t := by
  unfold flushFiles onPayloads onIndex PayloadLog.flush MessageIndex.flush PayloadLog.onFile
    MessageIndex.onFile PagedFile.flush Ensures
  simp only [leads_bind, leads_within, leads_update]
  exact ⟨.start rfl, rfl, rfl, rfl, rfl, PageStore.same_flush _, PageStore.same_flush _,
    hrecords.flush, hpayloads.flush⟩

/-- What the durability policy asks for after a change shows nowhere. -/
theorem afterChange_quiet : afterChange.Ensures s fun _ t => Quiet s t := by
  unfold afterChange Ensures
  simp only [leads_bind, leads_memory]
  split
  next => exact flushFiles_quiet hrecords hpayloads
  next count =>
    have hcounted := quiet_withChanges hrecords hpayloads (s.memory.changes + 1)
    simp only [leads_bind, leads_update, leads_memory, leads_ite, leads_pure]
    split
    next =>
      have hreset := hcounted.trans
        (quiet_withChanges hcounted.recordCoherent hcounted.payloadCoherent 0)
      exact (flushFiles_quiet (s := ⟨s.host, { s.memory with changes := 0 }⟩) hrecords
        hpayloads).mono fun _ _ ht => hreset.trans ht
    next => exact hcounted
  next => exact ⟨.start rfl, rfl, rfl, rfl, rfl, .refl _, .refl _, hrecords, hpayloads⟩
  next => exact ⟨.start rfl, rfl, rfl, rfl, rfl, .refl _, .refl _, hrecords, hpayloads⟩

theorem recordPages_checkpoint_quiet (hsound : s.host.disk.Sound) :
    (onRecordPages checkpointPages).Ensures s fun _ t => Quiet s t := by
  have hstart : Access (· = s.host.disk) (pagesOf (indexOf s))
      ⟨s.host, s.memory.index.file.store.flush⟩ :=
    ⟨PageStore.same_flush _, hsound, hrecords.flush, .start rfl⟩
  unfold onRecordPages onIndex MessageIndex.onFile PagedFile.onStore checkpointPages Ensures
  simp only [leads_within, leads_bind, leads_update, leads_discard]
  refine (PageStore.sweep_ensures hstart).leads.mono (fun _ u hu => ?_) fun _ _ => False.elim
  obtain ⟨hu, -, -⟩ := hu
  exact ⟨hu.trail, rfl, rfl, rfl, rfl, hu.same, .refl _, hu.last ▸ hu.coherent, hpayloads⟩

theorem payloadPages_checkpoint_quiet (hsound : s.host.disk.Sound) :
    (onPayloadPages checkpointPages).Ensures s fun _ t => Quiet s t := by
  have hstart : Access (· = s.host.disk) (payloadPagesOf s)
      ⟨s.host, s.memory.payloads.file.store.flush⟩ :=
    ⟨PageStore.same_flush _, hsound, hpayloads.flush, .start rfl⟩
  unfold onPayloadPages onPayloads PayloadLog.onFile PagedFile.onStore checkpointPages Ensures
  simp only [leads_within, leads_bind, leads_update, leads_discard]
  refine (PageStore.sweep_ensures hstart).leads.mono (fun _ u hu => ?_) fun _ _ => False.elim
  obtain ⟨hu, -, -⟩ := hu
  exact ⟨hu.trail, rfl, rfl, rfl, rfl, .refl _, hu.same, hrecords, hu.last ▸ hu.coherent⟩

/-- A checkpoint changes no byte. -/
theorem checkpoint_quiet (hsound : s.host.disk.Sound) :
    checkpoint.Ensures s fun _ t => Quiet s t := by
  unfold checkpoint Ensures
  rw [leads_bind]
  refine (recordPages_checkpoint_quiet hrecords hpayloads hsound).leads.mono (fun _ t ht => ?_)
    fun _ _ => False.elim
  have hdisk := ht.disk_eq
  exact (payloadPages_checkpoint_quiet (hdisk ▸ ht.recordCoherent) (hdisk ▸ ht.payloadCoherent)
    (hdisk ▸ hsound)).mono fun _ _ => ht.trans

end

/-- An operation that shows nowhere goes on with the messages there are. -/
theorem Tracks.goes_of_quiet {p : Procedure Queue Unit} (h : Tracks l layout s)
    (hp : p.Ensures s fun _ t => Quiet s t) :
    p.Ensures s fun _ t => Goes l.items layout l layout s t
      ∧ t.memory.index.entries = s.memory.index.entries :=
  hp.mono fun _ _ hq => ⟨h.quiet hq, (congrArg MessageIndex.entries hq.index :)⟩

/-- The ledger stays when the files are forced out. -/
theorem flushFiles_ensures (h : Tracks l layout s) :
    flushFiles.Ensures s fun _ t => Goes l.items layout l layout s t
      ∧ t.memory.index.entries = s.memory.index.entries :=
  h.goes_of_quiet (flushFiles_quiet h.recordReady.coherent h.payloadReady.coherent)

/-- The number of changes is none of what is tracked. -/
theorem Tracks.withChanges (h : Tracks l layout s) (changes : Nat) :
    Goes l.items layout l layout s ⟨s.host, { s.memory with changes }⟩ :=
  h.quiet ⟨.start rfl, rfl, rfl, rfl, rfl, .refl _, .refl _, h.index.ready.coherent,
    h.payloadReady.coherent⟩

/-- It stays when a change is followed up. -/
theorem afterChange_ensures (h : Tracks l layout s) :
    afterChange.Ensures s fun _ t => Goes l.items layout l layout s t
      ∧ t.memory.index.entries = s.memory.index.entries :=
  h.goes_of_quiet (afterChange_quiet h.recordReady.coherent h.payloadReady.coherent)

/-- It stays under a checkpoint. -/
theorem checkpoint_ensures (h : Tracks l layout s) :
    checkpoint.Ensures s fun _ t => Goes l.items layout l layout s t :=
  (checkpoint_quiet h.recordReady.coherent h.payloadReady.coherent h.kept.sound).mono
    fun _ _ => h.quiet

/-- An open queue goes on. -/
theorem leads_ensureOpen (hopen : s.memory.isClosed = false) {done : Unit → Session Queue → Prop}
    {failed : Fault → Session Queue → Prop} : ensureOpen.Leads s done failed ↔ done () s := by
  simp only [ensureOpen, leads_bind, leads_memory, hopen, Bool.false_eq_true, if_false, leads_pure]

theorem flush_ensures (h : Tracks l layout s) :
    flush.Ensures s fun _ t => Goes l.items layout l layout s t := by
  unfold flush Ensures
  rw [leads_bind, leads_ensureOpen h.isOpen]
  exact (flushFiles_ensures h).mono fun _ _ hu => hu.1

/-! ## Reading a message -/

/-- Where the payload of a message is. -/
theorem Tracks.extent (h : Tracks l layout s) (hp : l.items[p]? = some i) :
    (i.toEntry p (layout p)).offset.toNat = layout p
      ∧ (i.toEntry p (layout p)).length.toNat = i.payload.length := by
  have hplaced := h.kept.records.placed (Items.lt_length hp)
  have hshort := h.kept.wellFormed.short i (List.mem_of_getElem? hp)
  constructor
  · exact UInt64.toNat_ofNat_of_lt (Nat.lt_trans hplaced (by decide))
  · exact UInt32.toNat_ofNat_of_lt (Nat.lt_of_le_of_lt hshort (by decide))

/-- A message is read as it was put in, whatever its status is by now. -/
theorem readMessage_ensures (h : Tracks l layout s) (hp : l.items[p]? = some i)
    (hentry : s.memory.index.entry id = i.toEntry p (layout p)) :
    (readMessage id).Ensures s fun m t => m = i.message ∧ Goes l.items layout l layout s t
      ∧ t.memory.index = s.memory.index := by
  obtain ⟨hoffset, hlength⟩ := h.extent hp
  have hpayload : (l.items.map Item.payload)[p]? = some i.payload := by
    rw [List.getElem?_map, hp, Option.map_some]
  have hdirectory := h.payloadDirectory
  have hsize := h.payloadSize
  have hpayloads : s.host.disk.Payloads (Queue.payloadDirectory s.memory.settings)
      s.memory.settings.pageSize (l.items.map Item.payload) layout := h.kept.payloads
  have hopenable : s.host.disk.Openable s.memory.payloads.file.store.directory := by
    rw [hdirectory]
    exact hpayloads.tidy.toOpenable
  unfold readMessage onPayloads PayloadLog.read PayloadLog.onFile Ensures
  simp only [leads_bind, leads_memory, leads_within, leads_pure, hentry, hoffset, hlength]
  refine (PagedFile.readBytes_leads (s := ⟨s.host, s.memory.payloads.file⟩) h.payloadReady _ _).mono
    ?_ fun _ _ hfailed =>
      PagedFile.not_failed (s := ⟨s.host, s.memory.payloads.file⟩) hopenable hfailed
  intro _ t ht
  obtain ⟨ht, rfl⟩ := ht
  have hbytes : (PagedFile.bytesOf ⟨s.host, s.memory.payloads.file⟩).read
      (layout p) i.payload.length
      = i.payload := by
    show (s.host.disk.space s.memory.payloads.file.store.directory
      s.memory.payloads.file.store.pageSize).read _ _ = _
    rw [hdirectory, hsize]
    exact hpayloads.payload hpayload
  -- reading may fill pages up, but below the reach, so no page is added
  have hway (d : Disk) (hd : Confined (Queue.payloadDirectory s.memory.settings)
      s.memory.settings.pageSize (InRange (layout p) i.payload.length) Nowhere s.host.disk d) :
      d.Payloads (Queue.payloadDirectory s.memory.settings) s.memory.settings.pageSize
          (l.items.map Item.payload) layout
        ∧ d.reach (Queue.payloadDirectory s.memory.settings) s.memory.settings.pageSize
          = s.host.disk.reach (Queue.payloadDirectory s.memory.settings)
            s.memory.settings.pageSize := by
    obtain ⟨htidy, hreach⟩ := hpayloads.tidy.confined h.pageSize_pos hd fun o ho =>
      hpayloads.below hpayload ho
    exact ⟨hpayloads.congr htidy hreach (funext fun o => hd.space_eq o fun ho => ho), hreach⟩
  have htouches := ht.touches
  simp only [PageStore.Touches, Session.memory_part, Session.host_part, hdirectory,
    hsize] at htouches
  refine ⟨?_, ?_, trivial⟩
  · show Message.mk i.uuid i.kind _ = i.message
    rw [hbytes]
    rfl
  · exact h.aside { s.memory.payloads with file := t.memory } t.host
      (htouches.mono fun d hd => ⟨.of_confined hd, (hway d hd).1⟩) h.cursor (Nat.le_refl _)
      ((hway _ htouches.last).2.trans h.reach)

/-- What a query answers: the message at a position, if one is found. -/
theorem readMessage?_ensures (h : Tracks l layout s) {position? : Option Nat}
    {found : Option EntryId} (hfound : (∃ p i id, position? = some p ∧ found = some id
        ∧ Stands s.memory.index l.items layout p i id)
      ∨ position? = none ∧ found = none) :
    (readMessage? found).Ensures s fun answer t =>
      answer = l.message? position? ∧ Goes l.items layout l layout s t := by
  rcases hfound with ⟨p, i, id, rfl, rfl, hstands⟩ | ⟨rfl, rfl⟩
  · unfold readMessage? Ensures
    simp only [leads_bind, leads_pure]
    refine (readMessage_ensures h hstands.item hstands.entry).mono ?_
    intro _ t ht
    obtain ⟨rfl, ht, -⟩ := ht
    refine ⟨?_, ht⟩
    rw [Ledger.message?, Option.bind_some, hstands.item, Option.map_some]
  · exact ⟨rfl, h.refl⟩

/-- A message is found as the ledger finds it. -/
theorem get?_ensures (h : Tracks l layout s) (uuid : Uuid) :
    (get? uuid).Ensures s fun answer t =>
      answer = l.message? (l.items.find? uuid) ∧ Goes l.items layout l layout s t := by
  unfold get? Ensures
  simp only [leads_bind, leads_memory]
  rw [leads_ensureOpen h.isOpen]
  refine readMessage?_ensures h ?_
  rcases h.index.holds.find?_cases h.kept.wellFormed uuid with ⟨p, i, id, hp, hid, -, hstands⟩
    | hnone
  · exact .inl ⟨p, i, id, hp, hid, hstands⟩
  · exact .inr hnone

/-- The oldest new message is that of the ledger. -/
theorem peek?_ensures (h : Tracks l layout s) :
    peek?.Ensures s fun answer t =>
      answer = l.message? l.items.oldest? ∧ Goes l.items layout l layout s t := by
  unfold peek? Ensures
  simp only [leads_bind, leads_memory]
  rw [leads_ensureOpen h.isOpen]
  refine readMessage?_ensures h ?_
  rcases h.index.holds.oldestNew?_cases with ⟨p, i, id, hp, hid, -, hstands⟩ | hnone
  · exact .inl ⟨p, i, id, hp, hid, hstands⟩
  · exact .inr hnone

/-! ## Moving a message -/

/-- What a move of the index moves is moved in the ledger, and the message is read afterwards. -/
theorem change_ensures (h : Tracks l layout s) {move : Procedure MessageIndex (Option EntryId)}
    {position? : Option Nat} {status : Status} (hentered : status ≠ .vacant)
    (hmove : move.Ensures (indexOf s) (Moves l.items layout status (indexOf s) position?)) :
    (change move).Ensures s fun answer t =>
      answer = l.message? position? ∧ Goes l.items layout (l.move position? status) layout s t := by
  unfold change onIndex Ensures
  simp only [leads_bind]
  rw [leads_ensureOpen h.isOpen, leads_within]
  refine hmove.leads.mono (fun found u hu => ?_) fun _ _ => False.elim
  rcases hu with ⟨p, i, id, rfl, rfl, hp, hlive, hbecomes, hentry⟩ | ⟨rfl, rfl, rfl⟩
  · have hpayload := Items.payload_setStatus l.items p status
    have hp' : (l.items.setStatus p status)[p]? = some { i with status } := by
      rw [Items.getElem?_setStatus, hp, Option.map_some, if_pos rfl]
    have hne : l.items.setStatus p status ≠ [] := by
      intro hnil
      rw [hnil] at hp'
      cases hp'
    -- a move leaves the payloads where they are
    have hmoved := h.turn hbecomes (h.kept.wellFormed.setStatus hp hlive hentered)
      (hpayload ▸ h.kept.payloads) (hpayload ▸ h.behind) (hbecomes.carries.reachOf_ne_zero hne)
    simp only [leads_bind, leads_pure]
    refine (afterChange_ensures hmoved.tracks).leads.mono (fun _ v hv => ?_) fun _ _ => False.elim
    obtain ⟨hafter, hentries⟩ := hv
    have hentry' : v.memory.index.entry id = Item.toEntry { i with status } p (layout p) := by
      rw [← hentry, MessageIndex.entry, hentries]
      rfl
    refine (readMessage_ensures hafter.tracks hp' hentry').mono ?_
    intro _ w hw
    obtain ⟨rfl, hread, -⟩ := hw
    refine ⟨?_, (hmoved.comp hafter (.inr ⟨rfl, rfl⟩)).comp hread (.inr ⟨rfl, rfl⟩)⟩
    rw [Ledger.message?, Option.bind_some, hp, Option.map_some]
    rfl
  · exact ⟨rfl, h.refl⟩

section

variable (h : Tracks l layout s) (hroom : l.items.length < 0x80000000)
include h hroom

/-- A new message is locked. -/
theorem lock_ensures (uuid : Uuid) :
    (lock uuid).Ensures s fun answer t => answer = l.message? (l.items.at? uuid .new)
      ∧ Goes l.items layout (l.move (l.items.at? uuid .new) .locked) layout s t :=
  change_ensures h nofun
    (MessageIndex.lock_ensures h.index h.kept.wellFormed hroom (h.recordSize ▸ h.pageSize_dvd) uuid)

/-- A locked one is new again. -/
theorem rollback_ensures (uuid : Uuid) :
    (rollback uuid).Ensures s fun answer t => answer = l.message? (l.items.at? uuid .locked)
      ∧ Goes l.items layout (l.move (l.items.at? uuid .locked) .new) layout s t :=
  change_ensures h nofun
    (MessageIndex.rollback_ensures h.index h.kept.wellFormed hroom
    (h.recordSize ▸ h.pageSize_dvd) uuid)

/-- A locked one is deleted. -/
theorem finish_ensures (uuid : Uuid) :
    (finish uuid).Ensures s fun answer t => answer = l.message? (l.items.at? uuid .locked)
      ∧ Goes l.items layout (l.move (l.items.at? uuid .locked) .deleted) layout s t :=
  change_ensures h nofun
    (MessageIndex.finish_ensures h.index h.kept.wellFormed hroom
    (h.recordSize ▸ h.pageSize_dvd) uuid)

/-- The oldest new one is locked. -/
theorem pop_ensures :
    pop.Ensures s fun answer t => answer = l.message? l.items.oldest?
      ∧ Goes l.items layout (l.move l.items.oldest? .locked) layout s t :=
  change_ensures h nofun (MessageIndex.pop_ensures h.index hroom (h.recordSize ▸ h.pageSize_dvd))

end

/-! ## Putting a message in -/

/-- What is noted about pushes under way is none of what is tracked. -/
theorem Tracks.withPending (h : Tracks l layout s) (pending : Std.TreeSet Uuid) :
    Tracks l layout ⟨s.host, { s.memory with index := { s.memory.index with pending } }⟩ where
  isOpen := h.isOpen
  valid := h.valid
  kept := h.kept
  recordDirectory := h.recordDirectory
  recordSize := h.recordSize
  payloadDirectory := h.payloadDirectory
  payloadSize := h.payloadSize
  recordReady := h.recordReady
  payloadReady := h.payloadReady
  index := ⟨h.index.ready, h.index.records, h.index.holds.congr rfl rfl rfl, h.index.count_eq,
    h.index.next_eq⟩
  started := h.started
  cursor := h.cursor
  behind := h.behind
  reach := h.reach

/-- A payload takes its place before it is written, and is written behind all others. -/
theorem append_ensures (h : Tracks l layout s) (payload : List UInt8)
    (hroom : l.stop < 0x8000000000000000) (hshort : payload.length ≤ maxPayload) :
    (onPayloads (PayloadLog.append payload)).Ensures s fun offset t => offset = l.stop
      ∧ Goes l.items layout { l with stop := l.stop + payload.length } layout s t
      ∧ t.host.disk.Payloads (Queue.payloadDirectory s.memory.settings) s.memory.settings.pageSize
          (l.items.map Item.payload ++ [payload]) (Function.update layout l.items.length l.stop)
      ∧ t.memory.index = s.memory.index := by
  have hdirectory := h.payloadDirectory
  have hsize := h.payloadSize
  have hpos := h.pageSize_pos
  have hpayloads : s.host.disk.Payloads (Queue.payloadDirectory s.memory.settings)
      s.memory.settings.pageSize (l.items.map Item.payload) layout := h.kept.payloads
  have hopenable : s.host.disk.Openable s.memory.payloads.file.store.directory := by
    rw [hdirectory]
    exact hpayloads.tidy.toOpenable
  have hbound (o : Nat) (ho : InRange l.stop payload.length o) : o < 0x10000000000000000 := by
    obtain ⟨-, hlt⟩ := ho
    have hmax : maxPayload < 0x80000000 := by decide
    omega
  unfold onPayloads PayloadLog.append PayloadLog.reserve PayloadLog.onFile Ensures
  simp only [leads_bind, leads_memory, leads_update, leads_within, leads_pure]
  rw [Session.memory_part, h.cursor]
  refine (PagedFile.writeBytes_leads (s := ⟨s.host, s.memory.payloads.file⟩) h.payloadReady _
    _).mono ?_ fun _ _ hfailed =>
      PagedFile.not_failed (s := ⟨s.host, s.memory.payloads.file⟩) hopenable hfailed
  intro _ t ht
  obtain ⟨htouches, hbytes, hpages, -⟩ := ht
  have hsame : t.memory.store.directory = s.memory.payloads.file.store.directory :=
    htouches.same.directory
  have hsame' : t.memory.store.pageSize = s.memory.payloads.file.store.pageSize :=
    htouches.same.pageSize
  simp only [PageStore.Touches, Session.memory_part, Session.host_part, hdirectory,
    hsize] at htouches
  simp only [hdirectory, hsize] at hpages
  have hspace : t.host.disk.space (Queue.payloadDirectory s.memory.settings)
      s.memory.settings.pageSize = (s.host.disk.space (Queue.payloadDirectory s.memory.settings)
        s.memory.settings.pageSize).write l.stop payload := by
    simp only [PagedFile.bytesOf, PageStore.contents, Session.memory_part, Session.host_part, hsame,
      hsame', hdirectory, hsize] at hbytes
    exact hbytes
  -- the payload lies behind all others, so the directories go on holding the messages
  have haside :=
    h.aside { s.memory.payloads with file := t.memory, cursor := l.stop + payload.length }
    t.host (htouches.mono fun d hd =>
    ⟨.of_confined hd, hpayloads.confined hd hbound fun hp ho hin =>
      Nat.not_lt_of_le hin.1 (h.behind hp ho)⟩) rfl (Nat.le_add_right _ _)
    (hpayloads.tidy.reach_append hpos htouches.last hbound hpages h.reach)
  have happend := hpayloads.append hpos htouches.last hbound h.behind hspace hpages
  rw [List.length_map] at happend
  exact ⟨rfl, haside, happend, trivial⟩

/-- The message is put in once its UUID is reserved. -/
theorem store_ensures (h : Tracks l layout s) (m : Message) (hnil : m.uuid ≠ Uuid.nil)
    (hshort : m.size ≤ maxPayload) (hnew : l.items.find? m.uuid = none)
    (hroom : l.stop < 0x8000000000000000) (hroom' : l.items.length + 1 < 0x80000000) :
    (store m).Ensures s fun _ t =>
      Goes l.items layout (l.enter m) (Function.update layout l.items.length l.stop) s t := by
  unfold store onIndex Ensures
  simp only [leads_bind, leads_discard, leads_within]
  refine (append_ensures h m.payload hroom hshort).leads.mono ?_ fun _ _ => False.elim
  intro _ t ht
  obtain ⟨rfl, hplaced, hpayloads, -⟩ := ht
  have htracks := hplaced.tracks
  refine (MessageIndex.publish_ensures htracks.index m hnew hroom hroom'
    htracks.count_fits).mono ?_
  intro _ u hu
  -- the payload is there before the record is, and belongs to no message until then
  have hmap : (l.items ++ [Item.ofMessage m]).map Item.payload
      = l.items.map Item.payload ++ [m.payload] := by
    rw [List.map_append]
    rfl
  have hturn := htracks.turn hu (h.kept.wellFormed.push hnil hshort hnew)
    (by rw [hmap, hplaced.settings]; exact hpayloads) ?_ (hu.carries.reachOf_ne_zero (by simp))
  · exact hplaced.comp hturn (.inl ⟨rfl, rfl⟩)
  · intro p bytes o hp ho
    rw [hmap] at hp
    show o < l.stop + m.payload.length
    rcases getElem?_concat_eq_some_iff.mp hp with hp | ⟨rfl, rfl⟩
    · have hlt := (List.getElem?_eq_some_iff.mp hp).1
      rw [List.length_map] at hlt
      rw [Function.update_of_ne (Nat.ne_of_lt hlt)] at ho
      exact Nat.lt_of_lt_of_le (h.behind hp ho) (Nat.le_add_right _ _)
    · rw [List.length_map, Function.update_self] at ho
      exact ho.2

/-- The index knows a UUID exactly if a message in the queue has it. -/
theorem Tracks.contains_eq (h : Tracks l layout s) (uuid : Uuid) :
    s.memory.index.live.contains uuid = (l.items.find? uuid).isSome := by
  rw [Bool.eq_iff_iff, Option.isSome_iff_exists]
  refine (MessageIndex.Holds.contains_iff h.index.holds).trans ?_
  constructor
  · intro hand
    obtain ⟨p, e, he, huuid⟩ := hand
    obtain ⟨i, hi, hlive, rfl⟩ := Items.held_eq_some_iff.mp he
    exact ⟨p, h.kept.wellFormed.find?_eq_some_iff.mpr ⟨i, hi, hlive, huuid⟩⟩
  · intro hand
    obtain ⟨p, hp⟩ := hand
    obtain ⟨i, hi, hlive, huuid⟩ := h.kept.wellFormed.find?_eq_some_iff.mp hp
    exact ⟨p, _, Items.held_of_live hi hlive, huuid⟩

/-- A message without UUID is refused. -/
theorem push_nil (h : Tracks l layout s) {m : Message} (hnil : m.uuid = Uuid.nil) :
    (push m).Leads s (fun _ _ => False) fun fault t => fault = .rejected .nilUuid ∧ t = s := by
  unfold push
  simp only [leads_bind]
  rw [leads_ensureOpen h.isOpen]
  simp only [leads_ite, leads_bind, leads_throw, if_pos (Uuid.isNil_iff.mpr hnil)]
  exact ⟨trivial, trivial⟩

/-- A message whose payload is too long is refused. -/
theorem push_long (h : Tracks l layout s) {m : Message} (hnil : m.uuid ≠ Uuid.nil)
    (hlong : maxPayload < m.size) :
    (push m).Leads s (fun _ _ => False)
      fun fault t => fault = .rejected (.payloadTooLarge m.size) ∧ t = s := by
  unfold push
  simp only [leads_bind]
  rw [leads_ensureOpen h.isOpen]
  simp only [leads_ite, leads_bind, leads_throw, leads_pure,
    if_neg (mt Uuid.isNil_iff.mp hnil), if_pos hlong]
  exact ⟨trivial, trivial⟩

/-- A message whose UUID is known is not put in again. -/
theorem push_known (h : Tracks l layout s) {m : Message} (hnil : m.uuid ≠ Uuid.nil)
    (hshort : m.size ≤ maxPayload) (hidle : s.memory.index.pending.contains m.uuid = false)
    (hknown : l.items.find? m.uuid ≠ none) :
    (push m).Ensures s fun new t => new = false ∧ Goes l.items layout l layout s t := by
  unfold push onIndex Ensures
  simp only [leads_bind]
  rw [leads_ensureOpen h.isOpen]
  simp only [leads_ite, leads_bind, leads_pure, leads_within, leads_tryFinally,
    if_neg (mt Uuid.isNil_iff.mp hnil), if_neg (Nat.not_lt_of_le hshort)]
  refine (MessageIndex.reserve_ensures (s := indexOf s) hidle).leads.mono ?_ fun _ _ => False.elim
  intro possible u hu
  obtain ⟨hpossible, pending, rfl, hpending⟩ := hu
  have himpossible : possible = false := by
    rw [hpossible, Session.memory_part, h.contains_eq, Option.isSome_iff_ne_none.mpr hknown]
    rfl
  subst himpossible
  rw [if_pos (by rfl)]
  exact ⟨trivial, h.withPending pending, .start (.inl h.kept), rfl, hpending⟩

/-- A new message comes in behind all others. -/
theorem push_new (h : Tracks l layout s) {m : Message} (hnil : m.uuid ≠ Uuid.nil)
    (hshort : m.size ≤ maxPayload) (hidle : s.memory.index.pending.contains m.uuid = false)
    (hnew : l.items.find? m.uuid = none) (hroom : l.stop < 0x8000000000000000)
    (hroom' : l.items.length + 1 < 0x80000000) :
    (push m).Ensures s fun new t => new = true
      ∧ Goes l.items layout (l.enter m) (Function.update layout l.items.length l.stop) s t := by
  unfold push onIndex Ensures
  simp only [leads_bind]
  rw [leads_ensureOpen h.isOpen]
  simp only [leads_ite, leads_bind, leads_pure, leads_within, leads_tryFinally,
    if_neg (mt Uuid.isNil_iff.mp hnil), if_neg (Nat.not_lt_of_le hshort)]
  refine (MessageIndex.reserve_ensures (s := indexOf s) hidle).leads.mono ?_ fun _ _ => False.elim
  intro possible u hu
  obtain ⟨hpossible, pending, rfl, hpending⟩ := hu
  have hpossible' : possible = true := by
    rw [hpossible, Session.memory_part, h.contains_eq, hnew]
    rfl
  subst hpossible'
  rw [if_neg (by decide)]
  refine (store_ensures (h.withPending pending) m hnil hshort hnew hroom hroom').leads.mono ?_
    fun _ _ => False.elim
  intro _ v hv
  simp only [MessageIndex.withdraw, leads_update]
  -- the reservation that is withdrawn was the only change to what is noted
  have hstored : Goes l.items layout (l.enter m) (Function.update layout l.items.length l.stop) s
      ⟨v.host, { v.memory with index := { v.memory.index with
        pending := v.memory.index.pending.erase m.uuid } }⟩ := by
    refine ⟨hv.tracks.withPending _, hv.passes, hv.settings, fun other => ?_⟩
    rw [MessageIndex.contains_erase_pending, hv.pending]
    show (_ && pending.contains other) = _
    rw [hpending]
    by_cases hother : m.uuid = other
    · subst hother
      simp [hidle]
    · simp [hother]
  refine (afterChange_ensures hstored.tracks).mono fun _ w hw => ⟨trivial, ?_⟩
  exact hstored.comp hw.1 (.inr ⟨rfl, rfl⟩)

end Queue

end PagedQueue
